import AstralHwmon.Guard.Types
import AstralHwmon.Lib.Fold
import Mathlib.Data.Fintype.Basic
import Mathlib.Tactic.FinCases

/-!
# The rule evaluator

`guard_eval` (`guard/guard_eval.c`): one pass over the samples gathers hit
counters and worst readings in a `Tally`, and the rules are then read off the
counters, each hit counter against the number of samples.

The two loops keep their shape. `Tally.sample` is the body of the sample loop;
each rule below it is what its block of the source passes to `add`, if
anything, and `guardEval` runs these through `add` in order.

The lemmas are in two groups. A hit counter goes up on exactly the samples that
satisfy its test (`Tally.sample_eq`), so after the loop it equals the number of
samples exactly when the test holds in every one. Adding a list of findings
records the first sixteen (`GuardVerdict.addAll_f`) and raises the level to the
worst that is no advisory (`GuardVerdict.addAll_level`).
-/

open CText Fold

namespace Astral

/-- `total_ma`. -/
def totalMa (s : GuardSample) : ℤ :=
  (List.finRange 6).foldl (fun t pin => t + s.ma pin) 0

/-- The loop that keeps the lowest of the six readings. -/
def lowest (reading : Pin → ℤ) : ℤ :=
  worst OrderDual.toDual (reading 0) [reading 1, reading 2, reading 3, reading 4, reading 5]

/-- The loop that keeps the highest of the six readings. -/
def highest (reading : Pin → ℤ) : ℤ :=
  worst id (reading 0) [reading 1, reading 2, reading 3, reading 4, reading 5]

/-- `add`, given the finding its arguments describe. -/
def GuardVerdict.add (v : GuardVerdict) (call : GuardFinding) : GuardVerdict where
  -- raised before the room is looked at, so a full array costs detail only
  level :=
    if call.level ≠ .note ∧ guardSeverity call.level > guardSeverity v.level then call.level
    else v.level
  f := if v.f.length = guardMaxFindings then v.f
    else v.f ++ [{ call with detail := snprintf 96 call.detail }]
  room := by
    have := v.room
    split
    · exact this
    · rw [List.length_append, List.length_singleton]; omega

/-- The counters and the worst readings `guard_eval` gathers. -/
structure Tally where
  warnHits : Pin → ℕ
  critHits : Pin → ℕ
  openHits : Pin → ℕ
  worstMa : Pin → ℤ
  noteHits : ℕ
  ratioWarnHits : ℕ
  ratioCritHits : ℕ
  mvWarnHits : ℕ
  mvCritHits : ℕ
  worstPct : ℤ
  worstMv : ℤ

/-- The tally before the first sample, whose first voltage is `mv0`. -/
def Tally.start (mv0 : ℤ) : Tally where
  warnHits _ := 0
  critHits _ := 0
  openHits _ := 0
  worstMa _ := 0
  noteHits := 0
  ratioWarnHits := 0
  ratioCritHits := 0
  mvWarnHits := 0
  mvCritHits := 0
  worstPct := 100
  worstMv := mv0

variable (lim : GuardLimits)

/-- The pin loop: the currents against the two limits. -/
def Tally.currents (t : Tally) (s : GuardSample) : Tally :=
  { t with
    worstMa := fun pin => if s.ma pin > t.worstMa pin then s.ma pin else t.worstMa pin
    critHits := fun pin => if s.ma pin ≥ lim.pinCritMa then t.critHits pin + 1 else t.critHits pin
    warnHits := fun pin =>
      if s.ma pin ≥ lim.pinWarnMa then t.warnHits pin + 1 else t.warnHits pin }

/-- R4's block: the lowest voltage. -/
def Tally.voltages (t : Tally) (s : GuardSample) : Tally :=
  let lo := lowest s.mv
  { t with
    worstMv := if lo < t.worstMv then lo else t.worstMv
    mvCritHits := if lo < lim.mvCrit then t.mvCritHits + 1 else t.mvCritHits
    mvWarnHits := if lo < lim.mvWarn then t.mvWarnHits + 1 else t.mvWarnHits }

/-- R2's block, behind its gate. -/
def Tally.opens (t : Tally) (s : GuardSample) : Tally :=
  if totalMa s ≥ lim.openGateMa then
    { t with openHits := fun pin =>
        if s.ma pin < lim.openPinMa then t.openHits pin + 1 else t.openHits pin }
  else t

/-- R3's block, behind its gate. -/
def Tally.ratios (t : Tally) (s : GuardSample) : Tally :=
  if totalMa s ≥ lim.ratioGateMa then
    let lo := lowest s.ma
    let hi := highest s.ma
    -- no quotient without a current, and no tier either
    if hi > 0 then
      let pct := (lo * 100).tdiv hi
      { t with
        worstPct := if pct < t.worstPct then pct else t.worstPct
        ratioCritHits :=
          if lo * 100 < hi * lim.ratioCritPct then t.ratioCritHits + 1 else t.ratioCritHits
        ratioWarnHits :=
          if lo * 100 < hi * lim.ratioWarnPct then t.ratioWarnHits + 1 else t.ratioWarnHits
        noteHits := if lo * 100 < hi * lim.ratioNotePct then t.noteHits + 1 else t.noteHits }
    else t
  else t

/-- The body of the sample loop. -/
def Tally.sample (t : Tally) (s : GuardSample) : Tally :=
  (((t.currents lim s).voltages lim s).opens lim s).ratios lim s

/-- The tally of a list of samples. -/
def tallied (mv0 : ℤ) (ss : List GuardSample) : Tally :=
  ss.foldl (Tally.sample lim) (.start mv0)

/-- R2, for one pin. -/
def openPinRule (t : Tally) (n : ℕ) (pin : Pin) : Option GuardFinding :=
  if t.openHits pin = n then
    some ⟨.crit, .openPin, pin.val + 1, 0, snprintf 96 <|
      "pin ".toList ++ fmtInt (pin.val + 1) ++ " under ".toList ++ fmtInt lim.openPinMa
        ++ " mA while the connector is loaded".toList⟩
  else none

/-- R1, for one pin. -/
def pinCurrentRule (t : Tally) (n : ℕ) (pin : Pin) : Option GuardFinding :=
  if t.critHits pin = n then
    some ⟨.crit, .pinCurrent, pin.val + 1, t.worstMa pin, snprintf 96 <|
      "pin ".toList ++ fmtInt (pin.val + 1) ++ " at ".toList ++ fmtInt (t.worstMa pin)
        ++ " mA, at or above the ".toList ++ fmtInt lim.pinCritMa ++ " mA rating".toList⟩
  else if t.warnHits pin = n then
    some ⟨.warn, .pinCurrent, pin.val + 1, t.worstMa pin, snprintf 96 <|
      "pin ".toList ++ fmtInt (pin.val + 1) ++ " at ".toList ++ fmtInt (t.worstMa pin)
        ++ " mA, above the ".toList ++ fmtInt lim.pinWarnMa ++ " mA warning point".toList⟩
  else none

/-- The text of an imbalance finding at the warning and critical tiers. -/
def differText (pct worstPct : ℤ) : CStr :=
  "pin currents differ by more than ".toList ++ fmtInt (100 - pct) ++ "%: min/max ".toList
    ++ fmtInt worstPct ++ "%".toList

/-- R3. -/
def imbalanceRule (t : Tally) (n : ℕ) : Option GuardFinding :=
  if t.ratioCritHits = n then
    some ⟨.crit, .imbalance, 0, t.worstPct, snprintf 96 (differText lim.ratioCritPct t.worstPct)⟩
  else if t.ratioWarnHits = n then
    some ⟨.warn, .imbalance, 0, t.worstPct, snprintf 96 (differText lim.ratioWarnPct t.worstPct)⟩
  else if t.noteHits = n then
    some ⟨.note, .imbalance, 0, t.worstPct, snprintf 96 <|
      "pin currents uneven: min/max ".toList ++ fmtInt t.worstPct
        ++ "% - worth watching".toList⟩
  else none

/-- The text of a voltage finding. -/
def lowestText (worstMv floor : ℤ) : CStr :=
  "lowest pin at ".toList ++ fmtInt worstMv ++ " mV, below ".toList ++ fmtInt floor
    ++ " mV".toList

/-- R4. -/
def voltageRule (t : Tally) (n : ℕ) : Option GuardFinding :=
  if t.mvCritHits = n then
    some ⟨.crit, .voltage, 0, t.worstMv, snprintf 96 (lowestText t.worstMv lim.mvCrit)⟩
  else if t.mvWarnHits = n then
    some ⟨.warn, .voltage, 0, t.worstMv, snprintf 96 (lowestText t.worstMv lim.mvWarn)⟩
  else none

/-- What the rules pass to `add`, in the order of the source. -/
def ruleFindings (t : Tally) (n : ℕ) : List GuardFinding :=
  (List.finRange 6).filterMap (openPinRule lim t n) ++
    (List.finRange 6).filterMap (pinCurrentRule lim t n) ++
    (imbalanceRule lim t n).toList ++ (voltageRule lim t n).toList

/-- `guard_eval`. -/
def guardEval (ss : List GuardSample) : GuardVerdict :=
  match ss with
  | [] => .start
  | s :: _ => (ruleFindings lim (tallied lim (s.mv 0) ss) ss.length).foldl GuardVerdict.add .start

variable {lim}

/-! ### The inner loops -/

section Inner

variable {κ : Type*} [LinearOrder κ] (key : ℤ → κ) (reading : Pin → ℤ)

/-- No pin's reading is worse than the one a loop ends on. -/
theorem reading_le_worst (pin : Pin) : key (reading pin) ≤
    key (worst key (reading 0) [reading 1, reading 2, reading 3, reading 4, reading 5]) := by
  have hmem : ∀ x ∈ [reading 1, reading 2, reading 3, reading 4, reading 5], key x ≤
      key (worst key (reading 0) [reading 1, reading 2, reading 3, reading 4, reading 5]) :=
    fun x hx => le_worst key hx _
  -- the loop starts from pin 1 and goes over the others
  fin_cases pin
  · exact le_worst_init key (reading 0) _
  all_goals exact hmem _ (by simp)

/-- A loop ends on the reading of some pin. -/
theorem worst_reading_mem : ∃ pin,
    worst key (reading 0) [reading 1, reading 2, reading 3, reading 4, reading 5]
      = reading pin := by
  rcases worst_mem key (reading 0)
    [reading 1, reading 2, reading 3, reading 4, reading 5] with h | h
  · exact ⟨0, h⟩
  · simp only [List.mem_cons, List.not_mem_nil, or_false] at h
    rcases h with h | h | h | h | h
    exacts [⟨1, h⟩, ⟨2, h⟩, ⟨3, h⟩, ⟨4, h⟩, ⟨5, h⟩]

end Inner

theorem lowest_le (reading : Pin → ℤ) (pin : Pin) : lowest reading ≤ reading pin :=
  OrderDual.toDual_le_toDual.mp (reading_le_worst OrderDual.toDual reading pin)

theorem le_highest (reading : Pin → ℤ) (pin : Pin) : reading pin ≤ highest reading :=
  reading_le_worst id reading pin

theorem lowest_mem (reading : Pin → ℤ) : ∃ pin, lowest reading = reading pin :=
  worst_reading_mem OrderDual.toDual reading

theorem highest_mem (reading : Pin → ℤ) : ∃ pin, highest reading = reading pin :=
  worst_reading_mem id reading

/-! ### What one sample counts -/

/-- The gated test of R2. -/
def GuardSample.OpenPin (s : GuardSample) (lim : GuardLimits) (pin : Pin) : Prop :=
  totalMa s ≥ lim.openGateMa ∧ s.ma pin < lim.openPinMa

/-- The gated test of R3, at the tier of `pct`. -/
def GuardSample.Uneven (s : GuardSample) (lim : GuardLimits) (pct : ℤ) : Prop :=
  totalMa s ≥ lim.ratioGateMa ∧ highest s.ma > 0 ∧ lowest s.ma * 100 < highest s.ma * pct

instance (s : GuardSample) (pin : Pin) : Decidable (s.OpenPin lim pin) :=
  inferInstanceAs (Decidable (_ ∧ _))

instance (s : GuardSample) (pct : ℤ) : Decidable (s.Uneven lim pct) :=
  inferInstanceAs (Decidable (_ ∧ _ ∧ _))

theorem Tally.opens_openHits (t : Tally) (s : GuardSample) (pin : Pin) :
    (t.opens lim s).openHits pin
      = if s.OpenPin lim pin then t.openHits pin + 1 else t.openHits pin := by
  unfold Tally.opens GuardSample.OpenPin
  split
  next hgate => simp [hgate]
  next hgate => simp [hgate]

/-- R2's block touches nothing else. -/
theorem Tally.opens_eq (t : Tally) (s : GuardSample) :
    t.opens lim s = { t with openHits := (t.opens lim s).openHits } := by
  unfold Tally.opens
  split <;> rfl

/-- R3's block counts each tier's test, and touches no counter of another rule. -/
theorem Tally.ratios_eq (t : Tally) (s : GuardSample) :
    t.ratios lim s = { t with
      worstPct := (t.ratios lim s).worstPct
      ratioCritHits :=
        if s.Uneven lim lim.ratioCritPct then t.ratioCritHits + 1 else t.ratioCritHits
      ratioWarnHits :=
        if s.Uneven lim lim.ratioWarnPct then t.ratioWarnHits + 1 else t.ratioWarnHits
      noteHits := if s.Uneven lim lim.ratioNotePct then t.noteHits + 1 else t.noteHits } := by
  unfold Tally.ratios GuardSample.Uneven
  -- past the gate and with a current, each counter has its own test; else none moves
  by_cases hgate : totalMa s ≥ lim.ratioGateMa
  · by_cases hhi : highest s.ma > 0
    · simp [hgate, hhi]
    · simp [hgate, hhi]
  · simp [hgate]

/-- **What one sample counts.** Every hit counter goes up exactly on the samples
that meet its test. -/
theorem Tally.sample_eq (t : Tally) (s : GuardSample) :
    t.sample lim s = {
      warnHits := fun pin =>
        if s.ma pin ≥ lim.pinWarnMa then t.warnHits pin + 1 else t.warnHits pin
      critHits := fun pin =>
        if s.ma pin ≥ lim.pinCritMa then t.critHits pin + 1 else t.critHits pin
      openHits := fun pin =>
        if s.OpenPin lim pin then t.openHits pin + 1 else t.openHits pin
      worstMa := (t.sample lim s).worstMa
      noteHits := if s.Uneven lim lim.ratioNotePct then t.noteHits + 1 else t.noteHits
      ratioWarnHits :=
        if s.Uneven lim lim.ratioWarnPct then t.ratioWarnHits + 1 else t.ratioWarnHits
      ratioCritHits :=
        if s.Uneven lim lim.ratioCritPct then t.ratioCritHits + 1 else t.ratioCritHits
      mvWarnHits := if lowest s.mv < lim.mvWarn then t.mvWarnHits + 1 else t.mvWarnHits
      mvCritHits := if lowest s.mv < lim.mvCrit then t.mvCritHits + 1 else t.mvCritHits
      worstPct := (t.sample lim s).worstPct
      worstMv := (t.sample lim s).worstMv } := by
  -- the currents and voltages are set before either gate, and no later block resets them
  have hopen : (((t.currents lim s).voltages lim s).opens lim s).openHits
      = fun pin => if s.OpenPin lim pin then t.openHits pin + 1 else t.openHits pin :=
    funext fun pin => Tally.opens_openHits _ s pin
  unfold Tally.sample
  rw [Tally.ratios_eq, Tally.opens_eq, hopen]
  rfl

/-! ### Adding findings -/

/-- A finding as the array keeps it. -/
def GuardFinding.clip (call : GuardFinding) : GuardFinding :=
  { call with detail := snprintf 96 call.detail }

/-- The rank by which findings raise the verdict: an advisory never does. -/
def alarmRank (level : GuardLevel) : ℕ := if level = .note then 0 else guardSeverity level

theorem GuardVerdict.add_level (v : GuardVerdict) (call : GuardFinding) :
    (v.add call).level = worse alarmRank v.level call.level := by
  obtain ⟨level, f, room⟩ := v
  obtain ⟨level', rule, pin, value, detail⟩ := call
  cases level <;> cases level' <;> rfl

theorem GuardVerdict.add_f (v : GuardVerdict) (call : GuardFinding) :
    (v.add call).f = (v.f ++ [call.clip]).take guardMaxFindings := by
  have hroom := v.room
  unfold GuardVerdict.add
  dsimp only
  split
  -- full already: what is appended falls beyond the cut
  next hfull => rw [List.take_append_of_le_length hfull.ge, List.take_of_length_le hroom]
  -- room for one more: the cut takes nothing away
  next hfree =>
    rw [List.take_of_length_le (by rw [List.length_append, List.length_singleton]; omega)]
    rfl

/-- The verdict after any number of additions: the worst level that is no
advisory. -/
theorem GuardVerdict.addAll_level (calls : List GuardFinding) (v : GuardVerdict) :
    (calls.foldl GuardVerdict.add v).level
      = worst alarmRank v.level (calls.map GuardFinding.level) := by
  induction calls generalizing v with
  | nil => rfl
  | cons call calls ih =>
    rw [List.foldl_cons, ih, GuardVerdict.add_level, List.map_cons, worst_cons]

/-- The findings recorded after any number of additions: as many of the first as
there is room for. -/
theorem GuardVerdict.addAll_f (calls : List GuardFinding) (v : GuardVerdict) :
    (calls.foldl GuardVerdict.add v).f
      = (v.f ++ calls.map GuardFinding.clip).take guardMaxFindings := by
  induction calls generalizing v with
  | nil => rw [List.foldl_nil, List.map_nil, List.append_nil, List.take_of_length_le v.room]
  | cons call calls ih =>
    rw [List.foldl_cons, ih, GuardVerdict.add_f, List.map_cons]
    -- cutting before the rest is appended changes nothing within the cut
    have hlen : guardMaxFindings - min guardMaxFindings (v.f ++ [call.clip]).length
        = guardMaxFindings - (v.f ++ [call.clip]).length := by omega
    rw [List.take_append, List.take_take, Nat.min_self, List.length_take, hlen,
      ← List.take_append, List.append_assoc, List.singleton_append]

/-- An advisory ranks no higher than OK, so it never becomes the verdict. -/
theorem worst_alarmRank_ne_note (levels : List GuardLevel) :
    worst alarmRank .ok levels ≠ .note := by
  intro h
  -- the start is displaced by a higher rank only, and an advisory's is the start's
  rcases worst_eq_or_lt alarmRank .ok levels with hok | hlt
  · exact absurd (h.symm.trans hok) (by decide)
  · exact absurd (h ▸ hlt) (by decide)

theorem guardEval_level_ne_note (lim : GuardLimits) (ss : List GuardSample) :
    (guardEval lim ss).level ≠ .note := by
  cases ss with
  | nil => exact GuardLevel.noConfusion
  | cons s ss =>
    rw [guardEval, GuardVerdict.addAll_level]
    exact worst_alarmRank_ne_note _

end Astral
