import AstralHwmon.Driver.PlausibilityGate
import AstralHwmon.Guard.Sysfs

/-!
# From chip bytes to the guard's sample

The driver publishes twelve channels, the hwmon core shows each as a file, the
guard reads the files. The core is not part of the repository; what it is relied
on for is stated once, as the fields of `HwmonHost`: the files of a chip are
named after its channels, voltages from `in0` and currents from `curr1`, and
reading one calls the driver's read callback and prints the value it returned, or
fails when the callback fails (`hwmonShow`).

Four conventions meet on the way: the reversed order of the block, big-endian
words, the two numberings, and a second copy of the plausibility bounds behind a
decimal parser. `readIntAttr_show` is the textual half, the round trip of one
value; `guardReadSample_pipeline` is the whole of it.
-/

open CText Transition

namespace Astral

/-- The text the hwmon core makes of a reply; none when the file read fails. -/
def hwmonShow (r : ReadReply) : Option CStr :=
  match r.ret with
  | .ok () => some (fmtInt r.val ++ ['\n'])
  | .error _ => none

/-- The name the core gives a voltage channel's file. -/
def hwmonInName (channel : ℕ) : CStr := "in".toList ++ fmtInt channel ++ "_input".toList

/-- The name the core gives a current channel's file. -/
def hwmonCurrName (channel : ℕ) : CStr :=
  "curr".toList ++ fmtInt (channel + 1) ++ "_input".toList

/-- A machine on which a chip's files are the driver's channels, shown by the
hwmon core. `data w` is the cache as a read made in `w` finds it, whatever other
readers did before; `io w` is what the kernel hands that read, and `stack w` what
the core's variable holds before the callback sets it. -/
structure HwmonHost (ttl : Jiffies) (W : Type*) extends Host W where
  dir : CStr
  data : W → AstralData
  io : W → CallIo
  stack : W → ℤ
  shows_in : ∀ (pin : Pin) w, (readFile (dir ++ '/' :: hwmonInName pin) w).1
    = hwmonShow (astralRead ttl (data w) (io w) .in .other pin.val (stack w))
  shows_curr : ∀ (pin : Pin) w, (readFile (dir ++ '/' :: hwmonCurrName pin) w).1
    = hwmonShow (astralRead ttl (data w) (io w) .curr .other pin.val (stack w))

variable {ttl : Jiffies} {W : Type*}

/-- The driver's reply to a read of a pin's channel made in `w`. -/
def HwmonHost.reply (h : HwmonHost ttl W) (type : HwmonType) (pin : Pin) (w : W) : ReadReply :=
  astralRead ttl (h.data w) (h.io w) type .other pin.val (h.stack w)

/-! ### The round trip of one value -/

/-- The guard asks for the files the core provides. -/
theorem mvAttr_eq (pin : Pin) : mvAttr pin = hwmonInName pin := by
  revert pin; decide

theorem maAttr_eq (pin : Pin) : maAttr pin = hwmonCurrName pin := by
  revert pin; decide

theorem attr_length_le (pin : Pin) : (mvAttr pin).length ≤ 32 ∧ (maAttr pin).length ≤ 32 := by
  revert pin; decide

/-- A printed value is parsed back, and admitted exactly within the bounds. -/
theorem parseRanged_fmtInt {v lo hi : ℤ} (hlo : lo ≤ v) (hhi : v ≤ hi) (hmin : longMin ≤ v)
    (hmax : v ≤ longMax) : parseRanged (fmtInt v) lo hi = some ⟨v, hlo, hhi⟩ := by
  have hparse := strtol_fmtInt hmin hmax
  -- something was parsed, to the end, and within bounds
  have hin : ¬ ((strtol (fmtInt v)).2 = fmtInt v ∨ (strtol (fmtInt v)).2 ≠ [] ∨
      (strtol (fmtInt v)).1 < lo ∨ (strtol (fmtInt v)).1 > hi) := by
    rw [hparse]
    rintro (h | h | h | h)
    · exact fmtInt_ne_nil v h.symm
    · exact h rfl
    · exact absurd h (not_lt.mpr hlo)
    · exact absurd h (not_lt.mpr hhi)
  unfold parseRanged
  simp only
  rw [dif_neg hin]
  simp only [hparse]

theorem fmtInt_length_lt {v : ℤ} (h0 : 0 ≤ v) (hv : v < 10 ^ 5) : (fmtInt v).length ≤ 5 := by
  rw [fmtInt_of_nonneg h0]
  exact (Nat.length_toDigits_le_iff (by decide) (by decide)).mpr (by omega)

/-- A chip's path leaves room for the name of an attribute. -/
theorem attrPath_eq {dir attr : CStr} (hdir : dir.length < 3072) (hattr : attr.length ≤ 32) :
    snprintf (3072 + 64) (dir ++ '/' :: attr) = dir ++ '/' :: attr :=
  List.take_of_length_le (by rw [List.length_append, List.length_cons]; omega)

theorem longMin_le_of_nonneg {v : ℤ} (h0 : 0 ≤ v) : longMin ≤ v := le_trans (by decide) h0

theorem le_longMax_of_lt {v : ℤ} (hv : v < 10 ^ 5) : v ≤ longMax := le_trans hv.le (by decide)

/-- A file that shows `v` is parsed as the text of `v`. -/
theorem readIntAttr_shown {host : Host W} {dir attr : CStr} (hdir : dir.length < 3072)
    (hattr : attr.length ≤ 32) {w : W} {v : ℤ}
    (hfile : (host.readFile (dir ++ '/' :: attr) w).1 = some (fmtInt v ++ ['\n']))
    (h0 : 0 ≤ v) (hv : v < 10 ^ 5) (lo hi : ℤ) :
    (readIntAttr host dir attr lo hi w).1 = parseRanged (fmtInt v) lo hi := by
  -- five digits and a newline fit the buffer of 32
  have hline : (fgets 32 (fmtInt v ++ ['\n'])).map chomp = some (fmtInt v) :=
    fgets_chomp_line (fun h => (not_eol_of_mem_fmtInt h).1 rfl)
      (fun h => (not_eol_of_mem_fmtInt h).2 rfl)
      (by have := fmtInt_length_lt h0 hv; omega)
  simp only [readIntAttr, readAttr, attrPath_eq hdir hattr, hfile, Option.bind_some, hline]

/-- **The round trip of a reading.** A file that shows `v` is read as `v` when `v`
is within the bounds. -/
theorem readIntAttr_show {host : Host W} {dir attr : CStr} (hdir : dir.length < 3072)
    (hattr : attr.length ≤ 32) {w : W} {v lo hi : ℤ}
    (hfile : (host.readFile (dir ++ '/' :: attr) w).1 = some (fmtInt v ++ ['\n']))
    (h0 : 0 ≤ v) (hv : v < 10 ^ 5) (hlo : lo ≤ v) (hhi : v ≤ hi) :
    (readIntAttr host dir attr lo hi w).1 = some ⟨v, hlo, hhi⟩ := by
  rw [readIntAttr_shown hdir hattr hfile h0 hv]
  exact parseRanged_fmtInt hlo hhi (longMin_le_of_nonneg h0) (le_longMax_of_lt hv)

/-- Whatever the bounds, a printed value is not parsed as another. -/
theorem parseRanged_fmtInt_eq {n lo hi : ℤ} (h0 : 0 ≤ n) (hn : n < 10 ^ 5) {v : Ranged lo hi}
    (h : parseRanged (fmtInt n) lo hi = some v) : v.val = n := by
  unfold parseRanged at h
  dsimp only at h
  split at h
  next => exact absurd h (by simp)
  next =>
    rw [← Option.some.inj h]
    exact congrArg Prod.fst (strtol_fmtInt (longMin_le_of_nonneg h0) (le_longMax_of_lt hn))

/-- A channel file that cannot be read is no reading. -/
theorem readIntAttr_fail {host : Host W} {dir attr : CStr} (hdir : dir.length < 3072)
    (hattr : attr.length ≤ 32) {w : W} {lo hi : ℤ}
    (hfile : (host.readFile (dir ++ '/' :: attr) w).1 = none) :
    (readIntAttr host dir attr lo hi w).1 = none := by
  simp only [readIntAttr, readAttr, attrPath_eq hdir hattr, hfile, Option.bind_none]

/-- What is read from a file that shows a reply is the value of a reply that
succeeded. -/
theorem reply_of_readIntAttr {host : Host W} {dir attr : CStr} (hdir : dir.length < 3072)
    (hattr : attr.length ≤ 32) {w : W} {r : ReadReply} {lo hi : ℤ} {v : Ranged lo hi}
    (hfile : (host.readFile (dir ++ '/' :: attr) w).1 = hwmonShow r)
    (hread : (readIntAttr host dir attr lo hi w).1 = some v) :
    r.ret = .ok () ∧ (0 ≤ r.val → r.val < 10 ^ 5 → v.val = r.val) := by
  cases hret : r.ret with
  | error e =>
    rw [hwmonShow, hret] at hfile
    exact absurd (hread.symm.trans (readIntAttr_fail hdir hattr hfile)) (by simp)
  | ok u =>
    rw [hwmonShow, hret] at hfile
    refine ⟨rfl, fun h0 hval => ?_⟩
    have hparse := readIntAttr_shown hdir hattr hfile h0 hval lo hi
    exact parseRanged_fmtInt_eq h0 hval (hparse.symm.trans hread)

/-! ### The whole pipeline -/

/-- A read of a channel serves a frame: it leaves it in a valid cache. -/
def ReadReply.Serves (r : ReadReply) (frame : AstralFrame) : Prop :=
  r.data.valid = true ∧ r.data.frame = frame

/-- A read that serves a frame returns its pin's value in it. -/
theorem HwmonHost.reply_of_serves {h : HwmonHost ttl W} {type : HwmonType} {pin : Pin} {w : W}
    {frame : AstralFrame} (htype : type = .in ∨ type = .curr)
    (hserves : (h.reply type pin w).Serves frame) :
    (h.reply type pin w).ret = .ok () ∧ (h.reply type pin w).val = frame.value type pin := by
  have hchip : type ≠ .chip := by rcases htype with rfl | rfl <;> decide
  have hch : ¬ ((pin.val : ℤ) < 0 ∨ 6 ≤ (pin.val : ℤ)) := by omega
  unfold HwmonHost.reply astralRead at hserves ⊢
  rw [if_neg hchip, dif_neg hch] at hserves ⊢
  obtain ⟨hvalid, rfl⟩ := hserves
  dsimp only at hvalid ⊢
  rcases astralRefreshLocked_cases ttl (h.data w) (h.io w) with
    ⟨-, heq⟩ | ⟨-, -, e, heq⟩ | ⟨-, frame, -, -, heq⟩
  · rw [heq]
    rcases htype with rfl | rfl <;> exact ⟨rfl, rfl⟩
  · -- a failed refresh leaves no valid cache
    rw [heq] at hvalid
    exact absurd hvalid (by simp)
  · rw [heq]
    rcases htype with rfl | rfl <;> exact ⟨rfl, rfl⟩

/-- The world in which a pin's voltage is read, in a sample begun in `w`. -/
def HwmonHost.mvWorld (h : HwmonHost ttl W) (w : W) (pin : Pin) : W :=
  beforePin h.toHost h.dir w pin

/-- The world in which a pin's current is read: after its voltage. -/
def HwmonHost.maWorld (h : HwmonHost ttl W) (w : W) (pin : Pin) : W :=
  afterReads h.toHost h.dir [mvAttr pin] (h.mvWorld w pin)

/-- The twelve reads of a sample begun in `w` are served one frame. -/
def HwmonHost.Served (h : HwmonHost ttl W) (w : W) (frame : AstralFrame) : Prop :=
  ∀ pin, (h.reply .in pin (h.mvWorld w pin)).Serves frame ∧
    (h.reply .curr pin (h.maWorld w pin)).Serves frame

/-- One of the driver's twelve reads in a sample begun in `w` fails. -/
def HwmonHost.Fails (h : HwmonHost ttl W) (w : W) : Prop :=
  ∃ pin e, (h.reply .in pin (h.mvWorld w pin)).ret = .error e ∨
    (h.reply .curr pin (h.maWorld w pin)).ret = .error e

/-- The file of a pin's voltage, in the guard's words. -/
theorem HwmonHost.mv_file (h : HwmonHost ttl W) (pin : Pin) (w : W) :
    (h.readFile (h.dir ++ '/' :: mvAttr pin) w).1 = hwmonShow (h.reply .in pin w) := by
  rw [mvAttr_eq, h.shows_in]
  rfl

theorem HwmonHost.ma_file (h : HwmonHost ttl W) (pin : Pin) (w : W) :
    (h.readFile (h.dir ++ '/' :: maAttr pin) w).1 = hwmonShow (h.reply .curr pin w) := by
  rw [maAttr_eq, h.shows_curr]
  rfl

theorem hwmonShow_of_ok {r : ReadReply} (h : r.ret = .ok ()) :
    hwmonShow r = some (fmtInt r.val ++ ['\n']) := by
  rw [hwmonShow, h]

theorem hwmonShow_of_error {r : ReadReply} {e : Errno} (h : r.ret = .error e) :
    hwmonShow r = none := by
  rw [hwmonShow, h]

/-- A pin whose two reads are served a plausible frame is read as that frame has
it: the guard's bounds admit what the driver publishes. -/
theorem HwmonHost.served_pin {h : HwmonHost ttl W} (hdir : h.dir.length < 3072) {w : W}
    {frame : AstralFrame} (hpl : astralFramePlausible frame = true) (hs : h.Served w frame)
    (pin : Pin) :
    (∃ mv, (readIntAttr h.toHost h.dir (mvAttr pin) guardMvMin guardMvMax (h.mvWorld w pin)).1
        = some mv ∧ mv.val = (frame.millivolts pin).toNat) ∧
      ∃ ma, (readIntAttr h.toHost h.dir (maAttr pin) 0 guardMaMax (h.maWorld w pin)).1
        = some ma ∧ ma.val = (frame.milliamps pin).toNat := by
  obtain ⟨hlo, hhi, hma⟩ := (astralFramePlausible_iff frame).mp hpl pin
  obtain ⟨hserv, hserc⟩ := hs pin
  obtain ⟨hretv, hvalv⟩ := reply_of_serves (Or.inl rfl) hserv
  obtain ⟨hretc, hvalc⟩ := reply_of_serves (Or.inr rfl) hserc
  have hfilev := (h.mv_file pin (h.mvWorld w pin)).trans (hwmonShow_of_ok hretv)
  have hfilec := (h.ma_file pin (h.maWorld w pin)).trans (hwmonShow_of_ok hretc)
  rw [hvalv] at hfilev
  rw [hvalc] at hfilec
  -- what is left are the two copies of the bounds, the driver's and the guard's
  constructor
  · refine ⟨_, readIntAttr_show hdir (attr_length_le pin).1 hfilev ?_ ?_ ?_ ?_, rfl⟩ <;>
      simp only [AstralFrame.value, if_true, guardMvMin, guardMvMax] <;> omega
  · refine ⟨_, readIntAttr_show hdir (attr_length_le pin).2 hfilec ?_ ?_ ?_ ?_, rfl⟩ <;>
      simp only [AstralFrame.value, reduceCtorEq, if_false, guardMaMax] <;> omega

/-- **The pipeline preserves every pin.** Whatever accepted block the twelve reads
of a sample are served, the guard's sample succeeds and has, for pin `p`, the
big-endian words at offsets `4 * (6 - p)` and `4 * (6 - p) + 2` of it; and a
sample during which one of the driver's reads fails, fails. -/
theorem guardReadSample_pipeline (h : HwmonHost ttl W) {c : GuardChip} (hc : c.path = h.dir)
    (out : RawSample) (w : W) :
    (∀ buf : AstralBlock, astralFramePlausible (astralDecodeFrame buf) = true →
      h.Served w (astralDecodeFrame buf) →
      (guardReadSample h.toHost c out w).1.1 = 0 ∧
        ∃ s, (guardReadSample h.toHost c out w).1.2.filled = some s ∧
          ∀ pin : Pin,
            s.mv pin = 256 * buf[4 * (6 - (pin.val + 1))].toNat
              + buf[4 * (6 - (pin.val + 1)) + 1].toNat ∧
            s.ma pin = 256 * buf[4 * (6 - (pin.val + 1)) + 2].toNat
              + buf[4 * (6 - (pin.val + 1)) + 3].toNat) ∧
      (h.Fails w → (guardReadSample h.toHost c out w).1.1 = -1) := by
  have hcases := guardReadSample_cases h.toHost c out w
  have hfail := guardReadSample_eq_neg_one_iff h.toHost c out w
  have hdir : h.dir.length < 3072 := hc ▸ c.path_fits
  rw [hc] at hcases hfail
  constructor
  · intro buf hpl hserved
    have hpin := fun pin => HwmonHost.served_pin hdir hpl hserved pin
    rcases hcases with ⟨hret, -, hread⟩ | ⟨-, pin, hunread⟩
    · obtain ⟨s, hs, -⟩ := guardReadSample_filled hret
      refine ⟨hret, s, hs, fun pin => ?_⟩
      obtain ⟨mv', ma', hslotv, hslota, hsv, hsa⟩ := RawSample.filled_eq_some hs pin
      obtain ⟨mv, ma, hmv, hma, hslotv', hslota'⟩ := hread pin
      obtain ⟨⟨v, hv, hvval⟩, ⟨a, ha, haval⟩⟩ := hpin pin
      -- the slot, the read and the frame all hold one value
      obtain rfl := Option.some.inj (hslotv.symm.trans hslotv')
      obtain rfl := Option.some.inj (hslota.symm.trans hslota')
      obtain rfl := Option.some.inj (hmv.symm.trans hv)
      obtain rfl := Option.some.inj (hma.symm.trans ha)
      have hoffset : 6 - (pin.val + 1) = 5 - pin.val := by omega
      rw [hsv, hsa, hvval, haval, astralDecodeFrame_millivolts, astralDecodeFrame_milliamps]
      simp only [hoffset]
      exact ⟨by push_cast; rfl, by push_cast; rfl⟩
    · obtain ⟨⟨v, hv, -⟩, ⟨a, ha, -⟩⟩ := hpin pin
      rcases hunread with hnone | hnone
      · exact absurd (hv.symm.trans hnone) (by simp)
      · exact absurd (ha.symm.trans hnone) (by simp)
  · -- an error of the callback is a file that cannot be read, and so an unread pin
    rintro ⟨pin, e, herr⟩
    refine hfail.mpr ⟨pin, herr.imp (fun he => ?_) fun he => ?_⟩
    · exact readIntAttr_fail hdir (attr_length_le pin).1
        ((h.mv_file pin _).trans (hwmonShow_of_error he))
    · exact readIntAttr_fail hdir (attr_length_le pin).2
        ((h.ma_file pin _).trans (hwmonShow_of_error he))

/-! ### A machine with the driver on it -/

/-- The channel a path names, if it is a channel's file in `dir`. -/
def channelOf (dir path : CStr) : Option (HwmonType × Pin) :=
  (List.finRange 6).findSome? fun (pin : Pin) =>
    if path = dir ++ '/' :: hwmonInName pin then some (.in, pin)
    else if path = dir ++ '/' :: hwmonCurrName pin then some (.curr, pin)
    else none

theorem channelOf_in (dir : CStr) (pin : Pin) :
    channelOf dir (dir ++ '/' :: hwmonInName pin) = some (.in, pin) := by
  simp only [channelOf, List.append_cancel_left_eq, List.cons.injEq, true_and]
  revert pin
  decide

theorem channelOf_curr (dir : CStr) (pin : Pin) :
    channelOf dir (dir ++ '/' :: hwmonCurrName pin) = some (.curr, pin) := by
  simp only [channelOf, List.append_cancel_left_eq, List.cons.injEq, true_and]
  revert pin
  decide

/-- A machine whose hwmon core keeps its promise for the chip in `dir`. A read of
a channel moves the world on by `next`; `other` is the rest of the machine. -/
def driverHost (dir : CStr) (data : W → AstralData) (io : W → CallIo)
    (next : HwmonType → Pin → W → W) (other : Host W) : HwmonHost ttl W where
  readDir := other.readDir
  readFile path w :=
    match channelOf dir path with
    | some (type, pin) =>
      (hwmonShow (astralRead ttl (data w) (io w) type .other pin.val 0), next type pin w)
    | none => other.readFile path w
  nanosleep := other.nanosleep
  dir := dir
  data := data
  io := io
  stack _ := 0
  shows_in pin w := by rw [channelOf_in]
  shows_curr pin w := by rw [channelOf_curr]

/-- A machine with nothing on it. -/
def bareHost (W : Type*) : Host W := ⟨fun _ w => (none, w), fun _ w => (none, w), fun _ w => w⟩

/-- The block of an idle card, as the transfer delivers it. -/
def idleBuf : AstralBlock := ⟨idleBlock.toArray, by decide⟩

/-- A chip whose cache holds the idle frame for good. -/
def idleHost : HwmonHost 50 Unit :=
  driverHost "/sys/class/hwmon/hwmon7".toList (fun _ => ⟨astralDecodeFrame idleBuf, 0, true⟩)
    (fun _ => ⟨1, .error EIO, 1⟩) (fun _ _ w => w) (bareHost Unit)

/-- The chip as discovery finds it on that host. -/
def idleChip : GuardChip :=
  ⟨"/sys/class/hwmon/hwmon7".toList, by decide, ⟨200, by decide⟩⟩

/-- The idle frame, all the way from its bytes: pin 6 draws 460 mA. -/
theorem guardReadSample_pipeline_idle :
    (guardReadSample idleHost.toHost idleChip .unset ()).1.1 = 0 ∧
      ∃ s, (guardReadSample idleHost.toHost idleChip .unset ()).1.2.filled = some s ∧
        s.ma 5 = 460 := by
  have hserves : ∀ type pin w, type ≠ .chip →
      (idleHost.reply type pin w).Serves (astralDecodeFrame idleBuf) := by
    intro type pin w htype
    have hch : ¬ ((pin.val : ℤ) < 0 ∨ 6 ≤ (pin.val : ℤ)) := by omega
    rw [HwmonHost.reply, astralRead, if_neg htype, dif_neg hch]
    exact ⟨rfl, rfl⟩
  have hserved : idleHost.Served () (astralDecodeFrame idleBuf) :=
    fun pin => ⟨hserves .in pin _ (by decide), hserves .curr pin _ (by decide)⟩
  obtain ⟨hret, s, hs, hpins⟩ :=
    (guardReadSample_pipeline idleHost (c := idleChip) rfl .unset ()).1 idleBuf (by decide) hserved
  exact ⟨hret, s, hs, (hpins 5).2⟩

end Astral
