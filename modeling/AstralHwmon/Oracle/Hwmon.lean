import AstralHwmon.Guard.Discovery
import AstralHwmon.Oracle.I2c
import AstralHwmon.Oracle.PyInt
import AstralHwmon.Pipeline.OneFrame

/-!
# The oracle on the driver's files

`src/astral_oracle/hwmon.py` reads the files that the guard reads, by other means: a text
decoded from UTF-8, `str.strip` and `int` in place of `fgets`, `strtol` and a range. A read is
an `OSError`, a `ValueError` or an integer of any size, and the first exception ends the twelve
reads.

On the driver's files none of the differences shows. `sameRead_channel` is the case of one
read, `readHwmonPins_sameSample` that of a sample: the oracle and the guard make the same
reads, succeed together and have the same values. With the oracle's own transfer beside it,
`readHwmonPins_eq_readPins` says that a sample of one frame is what `read_pins` makes of the
transfer behind it. `findHwmonDir_eq_guardFindChips` is the search for the chip, beside the
guard's; the names it looks at are ASCII, as the kernel's are.
-/

open CText Transition

namespace Astral.Oracle

/-! ### The twelve reads -/

/-- `voltage_attr`, of a pin counted from 1. -/
def voltageAttr (pin : ℕ) : CStr := "in".toList ++ fmtInt ((pin : ℤ) - 1) ++ "_input".toList

/-- `current_attr`. -/
def currentAttr (pin : ℕ) : CStr := "curr".toList ++ fmtInt pin ++ "_input".toList

/-- `PinReading`, as the files have it: what a file holds may be any integer. -/
structure ShownReading where
  pin : ℕ
  millivolts : ℤ
  milliamps : ℤ
  deriving DecidableEq

section Reads

variable {W : Type*} (host : Host W)

/-- `path.read_text()`: the file, decoded. What it does to line ends makes no difference to a
text that is stripped and then compared or parsed. -/
def readText (path : CStr) (w : W) : Except SysfsError CStr × W :=
  match host.readFile path w with
  | (none, w) => (.error .osError, w)
  | (some bytes, w) =>
    match utf8Decode bytes with
    | none => (.error .valueError, w)
    | some text => (.ok text, w)

/-- `int((path / attr).read_text().strip())`. -/
def readInt (path attr : CStr) (w : W) : Except SysfsError ℤ × W :=
  match readText host (path ++ '/' :: attr) w with
  | (.error e, w) => (.error e, w)
  | (.ok text, w) => (pyInt (strip text), w)

/-- The comprehension of `read_hwmon_pins` over the pins still to read. -/
def readPinFiles (path : CStr) : List Pin → W → Except SysfsError (List ShownReading) × W
  | [], w => (.ok [], w)
  | i :: pins, w =>
    let pin := i.val + 1
    match readInt host path (voltageAttr pin) w with
    | (.error e, w) => (.error e, w)
    | (.ok millivolts, w) =>
      match readInt host path (currentAttr pin) w with
      | (.error e, w) => (.error e, w)
      | (.ok milliamps, w) =>
        match readPinFiles path pins w with
        | (.error e, w) => (.error e, w)
        | (.ok readings, w) => (.ok (⟨pin, millivolts, milliamps⟩ :: readings), w)

/-- `read_hwmon_pins`. -/
def readHwmonPins (path : CStr) (w : W) : Except SysfsError (List ShownReading) × W :=
  readPinFiles host path (List.finRange 6) w

variable {host}

theorem readText_none {path : CStr} {w w' : W} (h : host.readFile path w = (none, w')) :
    readText host path w = (.error .osError, w') := by
  rw [readText, h]

theorem readText_ascii {path text : CStr} {w w' : W} (h : host.readFile path w = (some text, w'))
    (hascii : ∀ c ∈ text, c.toNat < 128) : readText host path w = (.ok text, w') := by
  rw [readText, h]
  simp only [utf8Decode_ascii hascii]

variable (host)

/-- The oracle asks for the files that the guard asks for. -/
theorem pinAttr_eq (pin : Pin) :
    voltageAttr (pin.val + 1) = mvAttr pin ∧ currentAttr (pin.val + 1) = maAttr pin := by
  revert pin
  decide

/-! ### The oracle beside the guard -/

/-- A read of the oracle's and a read of the guard's come to the same: one world, and one
value or none. -/
def SameRead {lo hi : ℤ} (r : Except SysfsError ℤ × W) (r' : Option (Ranged lo hi) × W) : Prop :=
  r.2 = r'.2 ∧
    ((r.1 = .error .osError ∧ r'.1 = none) ∨ ∃ v, r.1 = .ok v.val ∧ r'.1 = some v)

/-- A reading of the oracle's is what the guard's sample has for a pin. -/
def SameValues (raw : RawSample) (reading : ShownReading) (pin : Pin) : Prop :=
  reading.pin = pin.val + 1 ∧ (raw.mv pin).map Subtype.val = some reading.millivolts ∧
    (raw.ma pin).map Subtype.val = some reading.milliamps

/-- What the oracle makes of some pins and what the guard makes of them come to the same:
one world, and an `OSError` beside -1 or the same values beside 0. -/
def SameSample (pins : List Pin) (r : Except SysfsError (List ShownReading) × W)
    (r' : (ℤ × RawSample) × W) : Prop :=
  r.2 = r'.2 ∧
    ((r.1 = .error .osError ∧ r'.1.1 = -1) ∨
      ∃ readings, r.1 = .ok readings ∧ r'.1.1 = 0 ∧
        List.Forall₂ (SameValues r'.1.2) readings pins)

variable {host} {path : CStr} {I : W → Prop}

/-- **Read by read, sample by sample.** Where every read comes to the same in both programs,
in the worlds of an invariant that reads keep, so do the reads of a list of pins. -/
theorem readPinFiles_sameSample
    (hmv : ∀ pin w, I w → SameRead (readInt host path (voltageAttr (pin.val + 1)) w)
      (readIntAttr host path (mvAttr pin) guardMvMin guardMvMax w))
    (hma : ∀ pin w, I w → SameRead (readInt host path (currentAttr (pin.val + 1)) w)
      (readIntAttr host path (maAttr pin) 0 guardMaMax w))
    (hkeep : ∀ attr w, I w → I (afterReads host path [attr] w)) {pins : List Pin}
    (hnodup : pins.Nodup) (out : RawSample) {w : W} (hw : I w) :
    SameSample pins (readPinFiles host path pins w)
      (Astral.readPins host path pins out w) := by
  -- on the pins still to read, for any slots set
  induction pins generalizing out w with
  | nil => exact ⟨rfl, Or.inr ⟨[], rfl, rfl, .nil⟩⟩
  | cons pin pins ih =>
    obtain ⟨hpin, hrest⟩ := List.nodup_cons.mp hnodup
    rw [readPinFiles, Astral.readPins]
    dsimp only
    obtain ⟨hworld, hvalue⟩ := hmv pin w hw
    cases hread : readInt host path (voltageAttr (pin.val + 1)) w with
    | mk py w₁ =>
      cases hread' : readIntAttr host path (mvAttr pin) guardMvMin guardMvMax w with
      | mk mv w₁' =>
        rw [hread, hread'] at hworld hvalue
        obtain rfl : w₁ = w₁' := hworld
        have hw₁ : I w₁ := readIntAttr_world hread' ▸ hkeep _ w hw
        rcases hvalue with ⟨rfl, rfl⟩ | ⟨mv, rfl, rfl⟩
        · exact ⟨rfl, Or.inl ⟨rfl, rfl⟩⟩
        dsimp only
        obtain ⟨hworld, hvalue⟩ := hma pin w₁ hw₁
        cases hread : readInt host path (currentAttr (pin.val + 1)) w₁ with
        | mk py w₂ =>
          cases hread' : readIntAttr host path (maAttr pin) 0 guardMaMax w₁ with
          | mk ma w₂' =>
            rw [hread, hread'] at hworld hvalue
            obtain rfl : w₂ = w₂' := hworld
            have hw₂ : I w₂ := readIntAttr_world hread' ▸ hkeep _ w₁ hw₁
            rcases hvalue with ⟨rfl, rfl⟩ | ⟨ma, rfl, rfl⟩
            · exact ⟨rfl, Or.inl ⟨rfl, rfl⟩⟩
            dsimp only
            let filled : RawSample :=
              ⟨Function.update out.mv pin (some mv), Function.update out.ma pin (some ma)⟩
            obtain ⟨hworld, hvalue⟩ := ih hrest filled hw₂
            -- the other pins' reads leave this pin's slots as they are
            obtain ⟨hkeepv, hkeepa⟩ := readPins_frame host path hpin filled w₂
            cases hpy : readPinFiles host path pins w₂ with
            | mk py w₃ =>
              rw [hpy] at hworld hvalue
              rcases hvalue with ⟨rfl, hret⟩ | ⟨readings, rfl, hret, hsame⟩
              · exact ⟨hworld, Or.inl ⟨rfl, hret⟩⟩
              · refine ⟨hworld, Or.inr ⟨_, rfl, hret, .cons ⟨rfl, ?_, ?_⟩ hsame⟩⟩
                · change ((Astral.readPins host path pins filled w₂).1.2.mv pin).map _ = _
                  rw [hkeepv, show filled.mv pin = some mv from Function.update_self _ _ _]
                  rfl
                · change ((Astral.readPins host path pins filled w₂).1.2.ma pin).map _ = _
                  rw [hkeepa, show filled.ma pin = some ma from Function.update_self _ _ _]
                  rfl

end Reads

section Driver

variable {m : Machine}

/-- What the hwmon core prints of a reading, `int` reads back. -/
theorem pyInt_shown {v : ℤ} (h0 : 0 ≤ v) (hv : v < 10 ^ 5) :
    pyInt (strip (fmtInt v ++ ['\n'])) = .ok v := by
  have hstrip : strip (fmtInt v ++ ['\n']) = fmtInt v :=
    (strip_line fun c hc => not_pyIsspace_of_mem_fmtInt hc).1
  have hlen := fmtInt_length_lt h0 hv
  rw [fmtInt_of_nonneg h0] at hlen
  rw [hstrip]
  exact pyInt_fmtInt (hlen.trans (by decide))

theorem hwmonShow_ascii {r : ReadReply} {text : CStr} (h : hwmonShow r = some text) :
    ∀ c ∈ text, c.toNat < 128 := by
  unfold hwmonShow at h
  split at h
  · rw [← Option.some.inj h]
    exact List.forall_mem_append.mpr
      ⟨fun c hc => (visible_of_mem_fmtInt hc).2, List.forall_mem_singleton.mpr (by decide)⟩
  · exact absurd h (by simp)

/-- Where the guard's bounds admit what the driver publishes, the two programs' reads of a
channel come to the same. -/
theorem sameRead_channel (hdir : m.dir.length < 3072) {w : World} (hw : w.timed.Inv m.clk)
    {type : HwmonType} {pin : Pin} (hchip : type ≠ .chip) {attr : CStr} (hattr : attr.length ≤ 32)
    (hfile : (m.host.readFile (m.dir ++ '/' :: attr) w).1 = hwmonShow (m.host.reply type pin w))
    {lo hi : ℤ} (hbounds : ∀ frame, astralFramePlausible frame = true →
      lo ≤ frame.value type pin ∧ frame.value type pin ≤ hi) :
    SameRead (readInt m.host.toHost m.dir attr w)
      (readIntAttr m.host.toHost m.dir attr lo hi w) := by
  -- what the driver prints is ASCII
  have hascii : ∀ text ∈ (m.host.readFile (m.dir ++ '/' :: attr) w).1, ∀ c ∈ text,
      c.toNat < 128 := by
    rw [hfile]
    intro text htext
    exact hwmonShow_ascii htext
  have hread : readInt m.host.toHost m.dir attr w
      = (match (m.host.readFile (m.dir ++ '/' :: attr) w).1 with
          | none => .error .osError
          | some text => pyInt (strip text),
        (m.host.readFile (m.dir ++ '/' :: attr) w).2) := by
    unfold readInt
    cases hfile : m.host.readFile (m.dir ++ '/' :: attr) w with
    | mk file w' =>
      cases file with
      | none => rw [readText_none hfile]
      | some text => rw [readText_ascii hfile (hascii text (by rw [hfile]; rfl))]
  have hworld : (readInt m.host.toHost m.dir attr w).2
      = (m.host.readFile (m.dir ++ '/' :: attr) w).2 := by rw [hread]
  have hworld' : (readIntAttr m.host.toHost m.dir attr lo hi w).2
      = (m.host.readFile (m.dir ++ '/' :: attr) w).2 := by
    rw [← attrPath_eq hdir hattr]
    rfl
  refine ⟨hworld.trans hworld'.symm, ?_⟩
  have hpy : (readInt m.host.toHost m.dir attr w).1
      = match hwmonShow (m.host.reply type pin w) with
        | none => .error .osError
        | some text => pyInt (strip text) := by
    rw [← hfile, hread]
  cases hret : (m.host.reply type pin w).ret with
  | error e =>
    have hnone := hwmonShow_of_error hret
    rw [hnone] at hpy hfile
    exact Or.inl ⟨hpy, readIntAttr_fail hdir hattr hfile⟩
  | ok _ =>
    -- what is printed is a value of a frame that passed the gate
    obtain ⟨-, frame, -, -, hpl, hval⟩ := Machine.read_value hw hchip hret
    obtain ⟨h0, hlt⟩ := frame.value_mem type pin
    obtain ⟨hlo, hhi⟩ := hbounds frame hpl
    have htext := hwmonShow_of_ok hret
    rw [hval] at htext
    rw [htext] at hpy hfile
    exact Or.inr ⟨⟨_, hlo, hhi⟩, hpy.trans (pyInt_shown h0 hlt),
      readIntAttr_show hdir hattr hfile h0 hlt hlo hhi⟩

/-- The driver's gate lies within the guard's bounds. -/
theorem value_mem_guardBounds {frame : AstralFrame} (hpl : astralFramePlausible frame = true)
    (pin : Pin) : (guardMvMin ≤ frame.value .in pin ∧ frame.value .in pin ≤ guardMvMax) ∧
      0 ≤ frame.value .curr pin ∧ frame.value .curr pin ≤ guardMaMax := by
  obtain ⟨hlo, hhi, hma⟩ := (astralFramePlausible_iff frame).mp hpl pin
  simp only [AstralFrame.value, if_true, reduceCtorEq, if_false, guardMvMin, guardMvMax,
    guardMaMax]
  omega

/-- A sample of the oracle's and a sample of the guard's, of one chip and begun in one world,
come to the same. -/
theorem readHwmonPins_sameSample {c : GuardChip} (hc : c.path = m.dir) {w : World}
    (hw : w.timed.Inv m.clk) (out : RawSample) :
    SameSample (List.finRange 6) (readHwmonPins m.host.toHost c.path w)
      (guardReadSample m.host.toHost c out w) := by
  have hdir : m.dir.length < 3072 := hc ▸ c.path_fits
  rw [guardReadSample, hc, readHwmonPins]
  refine readPinFiles_sameSample (I := fun w => w.timed.Inv m.clk) (fun pin w hw => ?_)
    (fun pin w hw => ?_) (fun attr w hw => Machine.inv_afterReads hw _ _)
    (List.nodup_finRange 6) out hw
  · rw [(pinAttr_eq pin).1]
    exact sameRead_channel hdir hw (by decide) (attr_length_le pin).1 (m.host.mv_file pin w)
      fun frame hpl => (value_mem_guardBounds hpl pin).1
  · rw [(pinAttr_eq pin).2]
    exact sameRead_channel hdir hw (by decide) (attr_length_le pin).2 (m.host.ma_file pin w)
      fun frame hpl => (value_mem_guardBounds hpl pin).2

/-- The readings that hold the values of a full sample. -/
def readingsOfSample (s : GuardSample) : List ShownReading :=
  (List.finRange 6).map fun pin => ⟨pin.val + 1, s.mv pin, s.ma pin⟩

theorem SameValues.eq_of_filled {raw : RawSample} {s : GuardSample} (hs : raw.filled = some s)
    {readings : List ShownReading} {pins : List Pin}
    (h : List.Forall₂ (SameValues raw) readings pins) :
    readings = pins.map fun pin => ⟨pin.val + 1, s.mv pin, s.ma pin⟩ := by
  induction h with
  | nil => rfl
  | @cons reading pin readings pins hsame _ ih =>
    obtain ⟨mv, ma, hmv, hma, hsmv, hsma⟩ := RawSample.filled_eq_some hs pin
    obtain ⟨hpin, hmv', hma'⟩ := hsame
    rw [hmv, Option.map_some, Option.some.injEq] at hmv'
    rw [hma, Option.map_some, Option.some.injEq] at hma'
    obtain ⟨p, mv', ma'⟩ := reading
    dsimp only at hpin hmv' hma'
    rw [List.map_cons, ih, hpin, ← hmv', ← hma', hsmv, hsma]

/-- A reading of the decoder's as the files have it. -/
def PinReading.shown (reading : PinReading) : ShownReading :=
  ⟨reading.pin, reading.millivolts, reading.milliamps⟩

/-- What the oracle's own transfer gives where the driver has a frame to publish. -/
theorem readPins_of_frame {dev : I2cDev} {r : SmbusResult} {frame : AstralFrame}
    (hdev : dev.Reachable) (hr : Answers r (dev.transfer regBase blockLen))
    (hframe : astralReadFrame r = .ok frame) (hpl : astralFramePlausible frame = true)
    (bus addr : ℕ) : readPins dev bus addr = .ok (readingsOf frame) := by
  obtain ⟨raw, hlen, rfl, rfl⟩ := astralReadFrame_eq_ok_iff.mp hframe
  have hblock := (readBlock_eq_ok_iff hdev bus addr hr).mpr ⟨rfl, hlen⟩
  have hle : blockLen ≤ raw.length := le_of_eq hlen.symm
  rw [readPins, hblock]
  refine decodeFrame_eq_ok_iff.mpr ⟨hle, ?_⟩
  rw [firstBlock_of_length hlen hle]
  exact ⟨hpl, rfl⟩

/-- **The driver's files show what the chip answered.** Take the driver in any state it can
be in and any other readers at any times, and a `read_hwmon_pins` that succeeds with all its
reads served one transfer. Then a device file that gives the oracle the outcome of that very
transfer has `read_pins` return the same readings. -/
theorem readHwmonPins_eq_readPins (m : Machine) {c : GuardChip} (hc : c.path = m.dir)
    {w : World} (hw : Reachable (timedSystem m.clk) w.timed) {readings : List ShownReading}
    (hok : (readHwmonPins m.host.toHost c.path w).1 = .ok readings) {i : ℕ}
    (hone : ∀ a ∈ m.sources w, a = i) :
    ∃ x, (readHwmonPins m.host.toHost c.path w).2.timed.transfers[i]? = some x ∧
      ∀ (dev : I2cDev) (bus addr : ℕ), dev.Reachable →
        Answers x.result (dev.transfer regBase blockLen) →
          ∃ decoded, readPins dev bus addr = .ok decoded ∧
            readings = decoded.map PinReading.shown := by
  have hinv := timedSystem_inv hw
  obtain ⟨hworld, hvalue⟩ := readHwmonPins_sameSample hc hinv .unset
  obtain ⟨readings', hok', hret, hsame⟩ := hvalue.resolve_left fun h => by
    rw [hok] at h
    exact absurd h.1 (by simp)
  obtain rfl : readings = readings' := Except.ok.inj (hok.symm.trans hok')
  rw [hworld]
  obtain ⟨s, hs, hrange⟩ := guardReadSample_filled hret
  -- what the sample has for a pin is what the one transfer has for it
  have hvalues : ∀ pin,
      (guardReadSample m.host.toHost c .unset w).2.timed.Holds i .in pin (s.mv pin) ∧
        (guardReadSample m.host.toHost c .unset w).2.timed.Holds i .curr pin (s.ma pin) := by
    intro pin
    obtain ⟨mv, ma, hmv, hma, hin, hcurr⟩ := Machine.sample_values hc hinv hret pin
    obtain ⟨mv', ma', hmv', hma', hsmv, hsma⟩ := RawSample.filled_eq_some hs pin
    obtain rfl := Option.some.inj (hmv.symm.trans hmv')
    obtain rfl := Option.some.inj (hma.symm.trans hma')
    rw [hone _ (List.mem_map_of_mem (m.mem_reads w pin).1)] at hin
    rw [hone _ (List.mem_map_of_mem (m.mem_reads w pin).2)] at hcurr
    rw [hsmv, hsma]
    exact ⟨hin, hcurr⟩
  obtain ⟨x, frame, hx, hframe, -⟩ := (hvalues 0).1
  have hof : ∀ {type : HwmonType} {pin : Pin} {v : ℤ},
      (guardReadSample m.host.toHost c .unset w).2.timed.Holds i type pin v →
        v = frame.value type pin := by
    rintro type pin v ⟨x', frame', hx', hframe', hv⟩
    obtain rfl := Option.some.inj (hx.symm.trans hx')
    obtain rfl := Except.ok.inj (hframe.symm.trans hframe')
    exact hv
  have hmv : ∀ pin, s.mv pin = (frame.millivolts pin).toNat := fun pin => hof (hvalues pin).1
  have hma : ∀ pin, s.ma pin = (frame.milliamps pin).toNat := fun pin => hof (hvalues pin).2
  have hpl : astralFramePlausible frame = true := by
    refine (astralFramePlausible_iff frame).mpr fun pin => ?_
    obtain ⟨⟨hlo, hhi⟩, -, hmax⟩ := hrange pin
    rw [hmv] at hlo hhi
    rw [hma] at hmax
    simp only [guardMvMin, guardMvMax, guardMaMax] at hlo hhi hmax
    omega
  refine ⟨x, hx, fun dev bus addr hdev hans => ?_⟩
  refine ⟨_, readPins_of_frame hdev hans hframe hpl bus addr, ?_⟩
  rw [SameValues.eq_of_filled hs hsame, readingsOf, List.map_map]
  refine List.map_congr_left fun pin _ => ?_
  rw [hmv, hma]
  rfl

/-- A device file that answers with the idle block. -/
def idleDev : I2cDev where
  openFails := none
  selectFails := none
  transfer _ _ := .ok ⟨(24 :: idleBlock ++ List.replicate 9 0).toArray, by decide⟩

/-- The idle card, through the driver's files and through its own device file. -/
theorem readHwmonPins_eq_readPins_quiet :
    ∃ decoded, readPins idleDev 4 defaultAddr = .ok decoded ∧
      (readHwmonPins quietMachine.host.toHost idleChip.path ⟨.start, 0⟩).1
        = .ok (decoded.map PinReading.shown) := by
  have hsome : (readHwmonPins quietMachine.host.toHost idleChip.path
      ⟨.start, 0⟩).1.toOption.isSome = true := by decide +kernel
  obtain ⟨readings, hok⟩ : ∃ readings,
      (readHwmonPins quietMachine.host.toHost idleChip.path ⟨.start, 0⟩).1 = .ok readings := by
    cases hread : (readHwmonPins quietMachine.host.toHost idleChip.path ⟨.start, 0⟩).1 with
    | error e => rw [hread] at hsome; exact absurd hsome Bool.false_ne_true
    | ok readings => exact ⟨readings, rfl⟩
  -- twelve reads within the cache's lifetime, and one transfer for them
  have hone : ∀ a ∈ quietMachine.sources ⟨.start, 0⟩, a = 0 := by decide +kernel
  have hresult : ((readHwmonPins quietMachine.host.toHost idleChip.path
      ⟨.start, 0⟩).2.timed.transfers[0]?).map Transfer.result = some (.block idleBlock) := by
    decide +kernel
  obtain ⟨x, hx, hdev⟩ := readHwmonPins_eq_readPins quietMachine (c := idleChip) rfl
    (w := ⟨.start, 0⟩) timedSystem_start hok hone
  rw [hx, Option.map_some, Option.some.injEq] at hresult
  have hans : Answers x.result (idleDev.transfer regBase blockLen) := by
    rw [hresult]
    exact ⟨rfl, rfl⟩
  obtain ⟨decoded, hdecoded, rfl⟩ := hdev idleDev 4 defaultAddr ⟨rfl, rfl⟩ hans
  exact ⟨decoded, hdecoded, hok⟩

end Driver

/-! ### The search for the chip -/

section Find

/-- `CHIP_NAME`. -/
def chipName : CStr := "astral12vhpwr".toList

variable {W : Type*} (host : Host W)

/-- `Path.iterdir`: every entry but the directory itself and its parent. Where the walks sort
entries they have names in UTF-8, which Python sorts in the order of their bytes. -/
def iterdir (path : CStr) (w : W) : Option (List CStr) × W :=
  let (ents, w) := host.readDir path w
  (ents.map fun ents =>
    (ents.filter fun ent => ent ≠ ".".toList ∧ ent ≠ "..".toList).map (entryPath path), w)

/-- The loop of `find_hwmon_dir` over the entries still to look at. -/
def findEntry (chip : CStr) : List CStr → W → Except SysfsError (Option CStr) × W
  | [], w => (.ok none, w)
  | entry :: entries, w =>
    match readText host (entryPath entry "name".toList) w with
    -- an entry without a readable name is passed over; one with a name that is no text is not
    | (.error .osError, w) => findEntry chip entries w
    | (.error e, w) => (.error e, w)
    | (.ok text, w) =>
      if strip text = chip then (.ok (some entry), w) else findEntry chip entries w

/-- `find_hwmon_dir`. -/
def findHwmonDir (chip sysfsRoot : CStr) (w : W) : Except SysfsError (Option CStr) × W :=
  match iterdir host (classDir sysfsRoot) w with
  | (none, w) => (.ok none, w)
  | (some entries, w) =>
    findEntry host chip (entries.insertionSort fun a b => strcmpLe a b = true) w

variable {host} {files : CStr → Option CStr}

/-- The test of the search on an entry. -/
def IsChip (files : CStr → Option CStr) (chip entry : CStr) : Prop :=
  (files (entryPath entry "name".toList)).map strip = some chip

instance (files : CStr → Option CStr) (chip : CStr) : DecidablePred (IsChip files chip) :=
  fun _ => inferInstanceAs (Decidable (_ = _))

/-- On a machine at rest, with names in ASCII, the loop stops at the first entry that is the
chip's. -/
theorem findEntry_static (h : host.Static files) (chip : CStr) {entries : List CStr}
    (hascii : ∀ entry ∈ entries, ∀ text ∈ files (entryPath entry "name".toList), ∀ c ∈ text,
      c.toNat < 128) (w : W) :
    (findEntry host chip entries w).1 = .ok (entries.find? (IsChip files chip ·)) := by
  -- on the entries still to look at; a file that cannot be read is passed over
  induction entries generalizing w with
  | nil => rfl
  | cons entry entries ih =>
    obtain ⟨hentry, hrest⟩ := List.forall_mem_cons.mp hascii
    have hfile := h (entryPath entry "name".toList) w
    rw [findEntry, List.find?_cons]
    cases hread : host.readFile (entryPath entry "name".toList) w with
    | mk file w₁ =>
      rw [hread] at hfile
      change file = _ at hfile
      cases file with
      | none =>
        have hno : ¬ IsChip files chip entry := by
          rw [IsChip, ← hfile]
          simp
        rw [readText_none hread, decide_eq_false hno]
        exact ih hrest w₁
      | some text =>
        have hiff : IsChip files chip entry ↔ strip text = chip := by
          rw [IsChip, ← hfile, Option.map_some, Option.some.injEq]
        rw [readText_ascii hread (hentry text hfile.symm)]
        dsimp only
        by_cases hchip : strip text = chip
        · rw [if_pos hchip, decide_eq_true (hiff.mpr hchip)]
        · rw [if_neg hchip, decide_eq_false fun hyes => hchip (hiff.mp hyes)]
          exact ih hrest w₁

instance : IsTrans CStr fun a b => strcmpLe a b = true := ⟨fun _ _ _ => strcmpLe_trans⟩

instance : Std.Total fun a b : CStr => strcmpLe a b = true := ⟨strcmpLe_total⟩

instance : Std.Antisymm fun a b : CStr => strcmpLe a b = true := ⟨fun _ _ => strcmpLe_antisymm⟩

/-- The first match of a sorted list is the first of the sorted matches, in whatever order
they come. -/
theorem find?_sorted {l matched : List CStr} {p : CStr → Bool} (h : (l.filter p).Perm matched) :
    (l.insertionSort fun a b => strcmpLe a b = true).find? p
      = (matched.insertionSort fun a b => strcmpLe a b = true).head? := by
  have hperm := ((l.perm_insertionSort fun a b => strcmpLe a b = true).filter p).trans
    (h.trans (matched.perm_insertionSort fun a b => strcmpLe a b = true).symm)
  have hsorted := (l.pairwise_insertionSort fun a b => strcmpLe a b = true).filter p
  rw [← List.head?_filter, hperm.eq_of_pairwise' hsorted (List.pairwise_insertionSort _ _)]

/-- The entries of a directory are named in ASCII, and their `name` attributes are lines of
ASCII: a name without white space, and nothing behind it, as the hwmon core has them. -/
def NameLines (files : CStr → Option CStr) (dir : CStr) (ents : List CStr) : Prop :=
  ∀ ent ∈ ents, (∀ c ∈ ent, c.toNat < 128) ∧
    ∀ text, files (entryPath (entryPath dir ent) "name".toList) = some text →
      ∃ name, text = name ++ ['\n'] ∧
        ∀ c ∈ name, c.toNat < 128 ∧ pyIsspace c = false ∧ c ≠ '\x00'

theorem NameLines.ascii {dir : CStr} {ents : List CStr} (h : NameLines files dir ents) {ent : CStr}
    (he : ent ∈ ents) : ∀ text ∈ files (entryPath (entryPath dir ent) "name".toList), ∀ c ∈ text,
      c.toNat < 128 := by
  intro text htext
  obtain ⟨name, rfl, hname⟩ := (h ent he).2 text htext
  exact List.forall_mem_append.mpr
    ⟨fun c hc => (hname c hc).1, List.forall_mem_singleton.mpr (by decide)⟩

/-- The only hidden entries of a directory are the directory itself and its parent. -/
def NoHidden (ents : List CStr) : Prop :=
  ∀ ent ∈ ents, ent.head? = some '.' → ent = ".".toList ∨ ent = "..".toList

/-- Of a line, the oracle's test and the guard's look at the same name. -/
theorem isChip_iff_matching {dir : CStr} {ents : List CStr} (hlines : NameLines files dir ents)
    (hhidden : NoHidden ents) {ent : CStr} (he : ent ∈ ents) :
    (ent ≠ ".".toList ∧ ent ≠ "..".toList) ∧ IsChip files chipName (entryPath dir ent) ↔
      Matching files dir ent := by
  -- of such a line the strip of the one and the cut of the other leave the name
  have hname : IsChip files chipName (entryPath dir ent) ↔
      (files (entryPath (entryPath dir ent) "name".toList)).map chomp = some guardChipName := by
    rw [IsChip]
    cases hfile : files (entryPath (entryPath dir ent) "name".toList) with
    | none => simp
    | some text =>
      obtain ⟨name, rfl, hname⟩ := (hlines ent he).2 text hfile
      have hstrip : strip (name ++ ['\n']) = name :=
        strip_append (fun c hc => (hname c hc).2.1) (by decide)
      have hchomp : chomp (name ++ ['\n']) = name := by
        refine takeWhile_append_of_head (fun c hc => ?_) (by decide)
        have hnl : c ≠ '\n' := by
          rintro rfl
          exact absurd (hname _ hc).2.1 (by decide)
        simp [hnl, (hname c hc).2.2]
      rw [Option.map_some, Option.map_some, hstrip, hchomp]
      rfl
  rw [hname, Matching]
  refine and_congr_left' ⟨fun hdots hdot => ?_, fun hdot => ⟨?_, ?_⟩⟩
  · exact (hhidden ent he hdot).elim hdots.1 hdots.2
  · rintro rfl
    exact hdot rfl
  · rintro rfl
    exact hdot rfl

end Find

end Astral.Oracle
