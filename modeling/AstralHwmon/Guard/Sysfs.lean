import AstralHwmon.Guard.Types
import Mathlib.Data.List.Sort

/-!
# Discovery and reads

`guard/guard_sysfs.c` over an arbitrary machine. A `Host` answers the calls the
guard makes, in a world it may change at every one of them, so that any text or
failure can come back from each read, whatever came before.

A sample is twelve reads made in turn. `guardReadSample` leaves the slots it did
not come to unset, as the array on the stack is; a slot that is set lies in the
bounds its reader was given. `guardReadSample_cases` says what a call can do:
return 0 with every slot set, or -1.
-/

open CText

namespace Astral

/-- `struct timespec`. -/
structure Timespec where
  sec : ℤ
  nsec : ℤ
  deriving DecidableEq

/-- What the guard asks of the machine it runs on. -/
structure Host (W : Type*) where
  /-- `opendir` and the entries `readdir` then yields, or the null pointer. -/
  readDir : CStr → W → Option (List CStr) × W
  /-- Opening a file and reading from its start: its text, or the failure of
  either. -/
  readFile : CStr → W → Option CStr × W
  nanosleep : Timespec → W → W

variable {W : Type*} (host : Host W)

/-- `read_attr`, with the size of the caller's buffer. -/
def readAttr (dir attr : CStr) (max : ℕ) (w : W) : Option CStr × W :=
  -- the buffer for the path is that of a chip's, with room for an attribute
  let path := snprintf (3072 + 64) (dir ++ '/' :: attr)
  let (file, w) := host.readFile path w
  (file.bind fun text => (fgets max text).map chomp, w)

/-- The test `read_int_attr` and `parse_int` make of a text: an integer to the
last character, within bounds. -/
def parseRanged (s : CStr) (lo hi : ℤ) : Option (Ranged lo hi) :=
  let v := (strtol s).1
  let rest := (strtol s).2
  if h : rest = s ∨ rest ≠ [] ∨ v < lo ∨ v > hi then none
  else some ⟨v, by simp only [not_or, not_lt] at h; exact ⟨h.2.2.1, h.2.2.2⟩⟩

/-- `read_int_attr`. -/
def readIntAttr (dir attr : CStr) (lo hi : ℤ) (w : W) : Option (Ranged lo hi) × W :=
  let (buf, w) := readAttr host dir attr 32 w
  (buf.bind fun s => parseRanged s lo hi, w)

/-- The loop of `guard_find_chips` over the directory's entries. -/
def findLoop (classDir : CStr) (max : ℕ) : List CStr → List GuardChip → W → List GuardChip × W
  | [], out, w => (out, w)
  | ent :: ents, out, w =>
    if out.length < max then
      if ent.head? = some '.' then findLoop classDir max ents out w
      else
        let path := snprintf 3072 (classDir ++ '/' :: ent)
        match readAttr host path "name".toList 64 w with
        | (none, w) => findLoop classDir max ents out w
        | (some name, w) =>
          if name ≠ guardChipName then findLoop classDir max ents out w
          else
            -- an interval that is no number in range is the default, not an error
            let (interval, w) :=
              readIntAttr host path "update_interval".toList 0 guardMaxIntervalMs w
            let chip : GuardChip :=
              { path := path
                path_fits := by
                  rw [show path = snprintf 3072 _ from rfl, snprintf, List.length_take]; omega
                updateIntervalMs := interval.getD ⟨guardDefaultIntervalMs, by decide⟩ }
            findLoop classDir max ents (out ++ [chip]) w
    else (out, w)

/-- `by_path`, as the order `qsort` is given. -/
def byPath (x y : GuardChip) : Prop := strcmpLe x.path y.path = true

instance : DecidableRel byPath := fun _ _ => inferInstanceAs (Decidable (_ = true))

/-- `guard_find_chips`; `none` when the class directory cannot be read. -/
def guardFindChips (sysfsRoot : CStr) (max : ℕ) (w : W) : Option (List GuardChip) × W :=
  let classDir := snprintf 2048 (sysfsRoot ++ "/class/hwmon".toList)
  match host.readDir classDir w with
  | (none, w) => (none, w)
  | (some ents, w) =>
    let (out, w) := findLoop host classDir max ents [] w
    (some (out.insertionSort byPath), w)

/-- A sample on the stack: a slot is unset until its attribute has been read. -/
structure RawSample where
  mv : Pin → Option (Ranged guardMvMin guardMvMax)
  ma : Pin → Option (Ranged 0 guardMaMax)

/-- The sample before its first read. -/
def RawSample.unset : RawSample := ⟨fun _ => none, fun _ => none⟩

/-- The sample a caller may look at: none while a slot is unset. -/
def RawSample.filled (raw : RawSample) : Option GuardSample :=
  if h : ∀ pin, (raw.mv pin).isSome ∧ (raw.ma pin).isSome then
    some ⟨fun pin => (raw.mv pin).get (h pin).1, fun pin => (raw.ma pin).get (h pin).2⟩
  else none

/-- The name of a pin's voltage attribute: zero-indexed. -/
def mvAttr (pin : Pin) : CStr := snprintf 32 ("in".toList ++ fmtInt pin.val ++ "_input".toList)

/-- The name of a pin's current attribute: one-indexed. -/
def maAttr (pin : Pin) : CStr :=
  snprintf 32 ("curr".toList ++ fmtInt (pin.val + 1) ++ "_input".toList)

/-- The loop of `guard_read_sample`. -/
def readPins (path : CStr) : List Pin → RawSample → W → (ℤ × RawSample) × W
  | [], out, w => ((0, out), w)
  | pin :: pins, out, w =>
    match readIntAttr host path (mvAttr pin) guardMvMin guardMvMax w with
    | (none, w) => ((-1, out), w)
    | (some mv, w) =>
      let out := { out with mv := Function.update out.mv pin (some mv) }
      match readIntAttr host path (maAttr pin) 0 guardMaMax w with
      | (none, w) => ((-1, out), w)
      | (some ma, w) =>
        readPins path pins { out with ma := Function.update out.ma pin (some ma) } w

/-- `guard_read_sample`, with the value it returns. -/
def guardReadSample (c : GuardChip) (out : RawSample) (w : W) : (ℤ × RawSample) × W :=
  readPins host c.path (List.finRange 6) out w

/-! ### Samples read in full -/

theorem RawSample.filled_eq_some {raw : RawSample} {s : GuardSample} (h : raw.filled = some s)
    (pin : Pin) : ∃ mv ma, raw.mv pin = some mv ∧ raw.ma pin = some ma ∧
      s.mv pin = mv.val ∧ s.ma pin = ma.val := by
  unfold RawSample.filled at h
  split at h
  next hset =>
    obtain rfl := Option.some.inj h
    exact ⟨_, _, (Option.some_get (hset pin).1).symm, (Option.some_get (hset pin).2).symm, rfl, rfl⟩
  next => exact absurd h (by simp)

theorem RawSample.exists_filled {raw : RawSample}
    (h : ∀ pin, ∃ mv ma, raw.mv pin = some mv ∧ raw.ma pin = some ma) :
    ∃ s, raw.filled = some s := by
  refine ⟨_, dif_pos fun pin => ?_⟩
  obtain ⟨mv, ma, hmv, hma⟩ := h pin
  rw [hmv, hma]
  exact ⟨rfl, rfl⟩

/-- A sample the caller may look at is in range: each slot carries its bounds. -/
theorem RawSample.filled_inRange {raw : RawSample} {s : GuardSample} (h : raw.filled = some s) :
    s.InRange := by
  intro pin
  obtain ⟨mv, ma, -, -, hmv, hma⟩ := filled_eq_some h pin
  rw [hmv, hma]
  exact ⟨mv.property, ma.property⟩

/-! ### The twelve reads of a sample -/

/-- The attributes of a list of pins, in the order they are read. -/
def pinAttrs (pins : List Pin) : List CStr := pins.flatMap fun pin => [mvAttr pin, maAttr pin]

/-- The world after a list of attributes has been read, whatever came back. -/
def afterReads (path : CStr) (attrs : List CStr) (w : W) : W :=
  attrs.foldl (fun w attr => (readAttr host path attr 32 w).2) w

/-- Both reads of a pin, made in `w`, succeed and leave their values in `out`. -/
def PinRead (path : CStr) (pin : Pin) (w : W) (out : RawSample) : Prop :=
  ∃ mv ma, (readIntAttr host path (mvAttr pin) guardMvMin guardMvMax w).1 = some mv ∧
    (readIntAttr host path (maAttr pin) 0 guardMaMax (afterReads host path [mvAttr pin] w)).1
      = some ma ∧
    out.mv pin = some mv ∧ out.ma pin = some ma

/-- One of the two reads of a pin, made in `w`, fails. -/
def PinUnread (path : CStr) (pin : Pin) (w : W) : Prop :=
  (readIntAttr host path (mvAttr pin) guardMvMin guardMvMax w).1 = none ∨
    (readIntAttr host path (maAttr pin) 0 guardMaMax (afterReads host path [mvAttr pin] w)).1
      = none

variable {host}

theorem readIntAttr_world {dir attr : CStr} {lo hi : ℤ} {w w' : W} {v : Option (Ranged lo hi)}
    (h : readIntAttr host dir attr lo hi w = (v, w')) : w' = afterReads host dir [attr] w :=
  (congrArg Prod.snd h).symm

theorem afterReads_append (path : CStr) (as bs : List CStr) (w : W) :
    afterReads host path (as ++ bs) w = afterReads host path bs (afterReads host path as w) :=
  List.foldl_append

/-- The reads of a pin do not touch the slots of another. -/
theorem readPins_frame (host : Host W) (path : CStr) {pin : Pin} {pins : List Pin}
    (hpin : pin ∉ pins) (out : RawSample) (w : W) :
    (readPins host path pins out w).1.2.mv pin = out.mv pin ∧
      (readPins host path pins out w).1.2.ma pin = out.ma pin := by
  -- on the pins: each step writes two places, both of its own pin
  induction pins generalizing out w with
  | nil => exact ⟨rfl, rfl⟩
  | cons p pins ih =>
    obtain ⟨hne, hpins⟩ := List.ne_and_not_mem_of_not_mem_cons hpin
    unfold readPins
    split
    · exact ⟨rfl, rfl⟩
    dsimp only
    split
    · exact ⟨Function.update_of_ne hne _ _, rfl⟩
    · obtain ⟨hmv, hma⟩ := ih hpins _ _
      rw [hmv, hma]
      exact ⟨Function.update_of_ne hne _ _, Function.update_of_ne hne _ _⟩

/-- **What reading a list of pins can do.** It returns 0 after reading every
attribute, with every slot set to what its read gave, or it returns -1 because
a read failed. -/
theorem readPins_cases (host : Host W) (path : CStr) {pins : List Pin} (hnodup : pins.Nodup)
    (out : RawSample) (w : W) :
    ((readPins host path pins out w).1.1 = 0 ∧
      (readPins host path pins out w).2 = afterReads host path (pinAttrs pins) w ∧
      ∀ i, (hi : i < pins.length) → PinRead host path pins[i]
        (afterReads host path (pinAttrs (pins.take i)) w) (readPins host path pins out w).1.2) ∨
    ((readPins host path pins out w).1.1 = -1 ∧
      ∃ i, ∃ hi : i < pins.length, PinUnread host path pins[i]
        (afterReads host path (pinAttrs (pins.take i)) w)) := by
  -- on the pins still to read, for any slots set and any world
  induction pins generalizing out w with
  | nil => exact Or.inl ⟨rfl, rfl, fun i hi => absurd hi (Nat.not_lt_zero i)⟩
  | cons pin pins ih =>
    obtain ⟨hpin, hrest⟩ := List.nodup_cons.mp hnodup
    rw [readPins]
    cases hmv : readIntAttr host path (mvAttr pin) guardMvMin guardMvMax w with
    | mk mv w₁ =>
      obtain rfl := readIntAttr_world hmv
      cases mv with
      | none => exact Or.inr ⟨rfl, 0, Nat.zero_lt_succ _, Or.inl (congrArg Prod.fst hmv)⟩
      | some mv =>
        dsimp only
        cases hma : readIntAttr host path (maAttr pin) 0 guardMaMax
            (afterReads host path [mvAttr pin] w) with
        | mk ma w₂ =>
          obtain rfl : w₂ = afterReads host path (pinAttrs [pin]) w := readIntAttr_world hma
          cases ma with
          | none => exact Or.inr ⟨rfl, 0, Nat.zero_lt_succ _, Or.inr (congrArg Prod.fst hma)⟩
          | some ma =>
            dsimp only
            -- the worlds of the remaining reads, counted from the first of all
            have hworld : ∀ qs, afterReads host path (pinAttrs qs)
                (afterReads host path (pinAttrs [pin]) w)
                  = afterReads host path (pinAttrs (pin :: qs)) w := fun qs =>
              (afterReads_append path (pinAttrs [pin]) (pinAttrs qs) w).symm
            let filled : RawSample :=
              ⟨Function.update out.mv pin (some mv), Function.update out.ma pin (some ma)⟩
            rcases ih hrest filled (afterReads host path (pinAttrs [pin]) w) with
              ⟨hret, hw, hread⟩ | ⟨hret, i, hi, hunread⟩
            · refine Or.inl ⟨hret, hw.trans (hworld pins), fun i hi => ?_⟩
              cases i with
              | zero =>
                -- the other pins' reads leave this pin's slots as they are
                obtain ⟨hkeepv, hkeepa⟩ := readPins_frame host path hpin filled
                  (afterReads host path (pinAttrs [pin]) w)
                exact ⟨mv, ma, congrArg Prod.fst hmv, congrArg Prod.fst hma,
                  hkeepv.trans (Function.update_self _ _ _),
                  hkeepa.trans (Function.update_self _ _ _)⟩
              | succ i =>
                have := hread i (Nat.lt_of_succ_lt_succ hi)
                rw [hworld] at this
                exact this
            · refine Or.inr ⟨hret, i + 1, Nat.succ_lt_succ hi, ?_⟩
              rw [hworld] at hunread
              exact hunread

/-- The world in which a pin's reads start, in a sample begun in `w`. -/
def beforePin (host : Host W) (path : CStr) (w : W) (pin : Pin) : W :=
  afterReads host path (pinAttrs ((List.finRange 6).take pin.val)) w

/-- **What `guard_read_sample` can do.** -/
theorem guardReadSample_cases (host : Host W) (c : GuardChip) (out : RawSample) (w : W) :
    ((guardReadSample host c out w).1.1 = 0 ∧
      (guardReadSample host c out w).2 = afterReads host c.path (pinAttrs (List.finRange 6)) w ∧
      ∀ pin, PinRead host c.path pin (beforePin host c.path w pin)
        (guardReadSample host c out w).1.2) ∨
    ((guardReadSample host c out w).1.1 = -1 ∧
      ∃ pin, PinUnread host c.path pin (beforePin host c.path w pin)) := by
  rcases readPins_cases host c.path (List.nodup_finRange 6) out w with
    ⟨hret, hw, hread⟩ | ⟨hret, i, hi, hunread⟩
  · refine Or.inl ⟨hret, hw, fun pin => ?_⟩
    have := hread pin.val (by rw [List.length_finRange]; exact pin.isLt)
    rwa [List.getElem_finRange, Fin.cast_mk] at this
  · rw [List.getElem_finRange] at hunread
    exact Or.inr ⟨hret, _, hunread⟩

/-- A pin is either read or not. -/
theorem PinRead.not_unread {path : CStr} {pin : Pin} {w : W} {out : RawSample}
    (h : PinRead host path pin w out) : ¬ PinUnread host path pin w := by
  obtain ⟨mv, ma, hmv, hma, -, -⟩ := h
  rintro (hnone | hnone)
  · rw [hmv] at hnone; exact absurd hnone (by simp)
  · rw [hma] at hnone; exact absurd hnone (by simp)

/-- A call fails exactly when one of the twelve reads does. -/
theorem guardReadSample_eq_neg_one_iff (host : Host W) (c : GuardChip) (out : RawSample) (w : W) :
    (guardReadSample host c out w).1.1 = -1 ↔
      ∃ pin, PinUnread host c.path pin (beforePin host c.path w pin) := by
  rcases guardReadSample_cases host c out w with ⟨hret, -, hread⟩ | ⟨hret, hunread⟩
  · rw [hret]
    exact ⟨fun h => absurd h (by decide), fun ⟨pin, h⟩ => absurd h (hread pin).not_unread⟩
  · exact ⟨fun _ => hunread, fun _ => hret⟩

/-- A call that returns 0 leaves a sample with every slot set, each in its
bounds. -/
theorem guardReadSample_filled {c : GuardChip} {out : RawSample} {w : W}
    (h : (guardReadSample host c out w).1.1 = 0) :
    ∃ s, (guardReadSample host c out w).1.2.filled = some s ∧ s.InRange := by
  rcases guardReadSample_cases host c out w with ⟨-, -, hread⟩ | ⟨hret, -⟩
  · obtain ⟨s, hs⟩ := RawSample.exists_filled fun pin => by
      obtain ⟨mv, ma, -, -, hmv, hma⟩ := hread pin
      exact ⟨mv, ma, hmv, hma⟩
    exact ⟨s, hs, RawSample.filled_inRange hs⟩
  · rw [hret] at h
    exact absurd h (by decide)

end Astral
