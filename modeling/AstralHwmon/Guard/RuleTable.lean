import AstralHwmon.Guard.Eval
import Mathlib.Algebra.BigOperators.Fin
import Mathlib.Algebra.Order.BigOperators.Group.Finset
import Mathlib.Data.Finset.Lattice.Fold

/-!
# The rule table

What the evaluator is for, without counters: a rule is a list of tiers, most
severe first, each with a threshold, and a rule fires at the first tier whose
test holds in *every* sample (`firstTier`). `ruleTable` lists the tests of the
four rules over total, lowest and highest readings.

`guardEval_ruleTable` says that the evaluator computes this table on every
list of admitted samples and for every limits value: the hit counters act as
universal quantifiers, whichever tiers the samples are at and whichever order
the tunable ratios put the tiers in.
-/

open CText Fold

namespace Astral

/-! ### The table -/

/-- Total current of a sample. -/
def GuardSample.total (s : GuardSample) : ℤ := ∑ pin, s.ma pin

/-- Smallest current of a sample. -/
def GuardSample.minMa (s : GuardSample) : ℤ := Finset.univ.inf' Finset.univ_nonempty s.ma

/-- Largest current of a sample. -/
def GuardSample.maxMa (s : GuardSample) : ℤ := Finset.univ.sup' Finset.univ_nonempty s.ma

/-- Lowest voltage of a sample. -/
def GuardSample.minMv (s : GuardSample) : ℤ := Finset.univ.inf' Finset.univ_nonempty s.mv

/-- The first tier whose test holds in every sample. -/
def firstTier (tiers : List (GuardLevel × ℤ)) (test : ℤ → GuardSample → Prop)
    [∀ x, DecidablePred (test x)] (ss : List GuardSample) : Option GuardLevel :=
  (tiers.find? fun tier => ∀ s ∈ ss, test tier.2 s).map Prod.fst

/-- What a finding says besides its value and text: rule, pin and level. -/
abbrev RuleEntry := GuardRule × ℕ × GuardLevel

/-- The entry a finding makes. -/
def GuardFinding.entry (f : GuardFinding) : RuleEntry := (f.rule, f.pin, f.level)

variable (lim : GuardLimits) (ss : List GuardSample)

/-- The findings a list of samples deserves, in order. -/
def ruleTable : List RuleEntry :=
  (List.finRange 6).filterMap (fun pin =>
    (firstTier [(.crit, lim.openPinMa)]
      (fun x s => lim.openGateMa ≤ s.total ∧ s.ma pin < x) ss).map (.openPin, pin.val + 1, ·)) ++
  (List.finRange 6).filterMap (fun pin =>
    (firstTier [(.crit, lim.pinCritMa), (.warn, lim.pinWarnMa)]
      (fun x s => x ≤ s.ma pin) ss).map (.pinCurrent, pin.val + 1, ·)) ++
  ((firstTier [(.crit, lim.ratioCritPct), (.warn, lim.ratioWarnPct), (.note, lim.ratioNotePct)]
    (fun x s => lim.ratioGateMa ≤ s.total ∧ s.minMa * 100 < s.maxMa * x) ss).map
      (.imbalance, 0, ·)).toList ++
  ((firstTier [(.crit, lim.mvCrit), (.warn, lim.mvWarn)]
    (fun x s => s.minMv < x) ss).map (.voltage, 0, ·)).toList

/-- The verdict a list of levels deserves: the most severe that is no advisory,
and OK when there is none. -/
def MostSevere (levels : List GuardLevel) (level : GuardLevel) : Prop :=
  (∀ l ∈ levels, l ≠ .note → guardSeverity l ≤ guardSeverity level) ∧
    (level = .ok ∨ level ≠ .note ∧ level ∈ levels)

/-! ### Loops as totals, minima and maxima -/

theorem totalMa_eq (s : GuardSample) : totalMa s = s.total := by
  rw [GuardSample.total, Fin.sum_univ_six, totalMa,
    show List.finRange 6 = [0, 1, 2, 3, 4, 5] from rfl]
  simp only [List.foldl_cons, List.foldl_nil, zero_add]

theorem lowest_eq (reading : Pin → ℤ) :
    lowest reading = Finset.univ.inf' Finset.univ_nonempty reading := by
  refine le_antisymm (Finset.le_inf' _ _ fun pin _ => lowest_le reading pin) ?_
  obtain ⟨pin, hpin⟩ := lowest_mem reading
  rw [hpin]
  exact Finset.inf'_le _ (Finset.mem_univ pin)

theorem highest_eq (reading : Pin → ℤ) :
    highest reading = Finset.univ.sup' Finset.univ_nonempty reading := by
  refine le_antisymm ?_ (Finset.sup'_le _ _ fun pin _ => le_highest reading pin)
  obtain ⟨pin, hpin⟩ := highest_mem reading
  rw [hpin]
  exact Finset.le_sup' _ (Finset.mem_univ pin)

/-! ### Counters as tests of every sample -/

section Tiers

variable {test : ℤ → GuardSample → Prop} [∀ x, DecidablePred (test x)] {ss : List GuardSample}

theorem firstTier_nil : firstTier [] test ss = none := rfl

theorem firstTier_cons (level : GuardLevel) (x : ℤ) (tiers : List (GuardLevel × ℤ)) :
    firstTier ((level, x) :: tiers) test ss
      = if ∀ s ∈ ss, test x s then some level else firstTier tiers test ss := by
  unfold firstTier
  split
  next h => rw [List.find?_cons_of_pos (by simpa using h)]; rfl
  next h => rw [List.find?_cons_of_neg (by simpa using h)]

end Tiers

variable {lim ss}

/-- A counter equals the number of samples exactly when its test, however it is
put, holds in every one. -/
theorem tallied_iff (count : Tally → ℕ) {p q : GuardSample → Prop} [DecidablePred p] {mv0 : ℤ}
    (h : CountsHits (Tally.sample lim) count p) (h0 : count (.start mv0) = 0)
    (hpq : ∀ s ∈ ss, (p s ↔ q s)) :
    count (tallied lim mv0 ss) = ss.length ↔ ∀ s ∈ ss, q s := by
  rw [tallied, h.hits_eq_length_iff h0]
  exact forall₂_congr hpq

theorem GuardSample.InRange.minMa_nonneg {s : GuardSample} (hs : s.InRange) : 0 ≤ s.minMa := by
  obtain ⟨pin, hpin⟩ := lowest_mem s.ma
  rw [GuardSample.minMa, ← lowest_eq, hpin]
  exact (hs pin).2.1

theorem GuardSample.InRange.maxMa_nonneg {s : GuardSample} (hs : s.InRange) : 0 ≤ s.maxMa := by
  obtain ⟨pin, hpin⟩ := highest_mem s.ma
  rw [GuardSample.maxMa, ← highest_eq, hpin]
  exact (hs pin).2.1

/-- The gated test of R3 on admitted readings: a maximum that the minimum falls
short of is positive. -/
theorem GuardSample.uneven_iff (s : GuardSample) (hs : s.InRange) (pct : ℤ) :
    s.Uneven lim pct ↔ lim.ratioGateMa ≤ s.total ∧ s.minMa * 100 < s.maxMa * pct := by
  rw [GuardSample.Uneven, totalMa_eq, lowest_eq, highest_eq, ← GuardSample.minMa,
    ← GuardSample.maxMa]
  refine and_congr_right fun _ => and_iff_right_of_imp fun hlt => ?_
  -- were the maximum zero, the minimum would be below zero
  have hmin := hs.minMa_nonneg
  rcases hs.maxMa_nonneg.eq_or_lt with hzero | hpos
  · rw [← hzero, zero_mul] at hlt; omega
  · exact hpos

theorem openHits_iff (mv0 : ℤ) (pin : Pin) :
    (tallied lim mv0 ss).openHits pin = ss.length
      ↔ ∀ s ∈ ss, lim.openGateMa ≤ s.total ∧ s.ma pin < lim.openPinMa :=
  tallied_iff (fun t => t.openHits pin) (fun t s => by rw [Tally.sample_eq]) rfl
    (fun s _ => by rw [GuardSample.OpenPin, totalMa_eq])

theorem critHits_iff (mv0 : ℤ) (pin : Pin) :
    (tallied lim mv0 ss).critHits pin = ss.length ↔ ∀ s ∈ ss, lim.pinCritMa ≤ s.ma pin :=
  tallied_iff (fun t => t.critHits pin) (fun t s => by rw [Tally.sample_eq]) rfl
    (fun _ _ => Iff.rfl)

theorem warnHits_iff (mv0 : ℤ) (pin : Pin) :
    (tallied lim mv0 ss).warnHits pin = ss.length ↔ ∀ s ∈ ss, lim.pinWarnMa ≤ s.ma pin :=
  tallied_iff (fun t => t.warnHits pin) (fun t s => by rw [Tally.sample_eq]) rfl
    (fun _ _ => Iff.rfl)

/-- The three counters of R3 count the same test, each at its own percentage. -/
theorem ratioHits_iff (mv0 : ℤ) (hs : ∀ s ∈ ss, s.InRange) {count : Tally → ℕ} {pct : ℤ}
    (h : CountsHits (Tally.sample lim) count fun s => s.Uneven lim pct)
    (h0 : count (.start mv0) = 0) : count (tallied lim mv0 ss) = ss.length ↔
      ∀ s ∈ ss, lim.ratioGateMa ≤ s.total ∧ s.minMa * 100 < s.maxMa * pct :=
  tallied_iff count h h0 fun s hmem => s.uneven_iff (hs s hmem) _

theorem ratioCritHits_iff (mv0 : ℤ) (hs : ∀ s ∈ ss, s.InRange) :
    (tallied lim mv0 ss).ratioCritHits = ss.length ↔
      ∀ s ∈ ss, lim.ratioGateMa ≤ s.total ∧ s.minMa * 100 < s.maxMa * lim.ratioCritPct :=
  ratioHits_iff mv0 hs (fun t s => by rw [Tally.sample_eq]) rfl

theorem ratioWarnHits_iff (mv0 : ℤ) (hs : ∀ s ∈ ss, s.InRange) :
    (tallied lim mv0 ss).ratioWarnHits = ss.length ↔
      ∀ s ∈ ss, lim.ratioGateMa ≤ s.total ∧ s.minMa * 100 < s.maxMa * lim.ratioWarnPct :=
  ratioHits_iff mv0 hs (fun t s => by rw [Tally.sample_eq]) rfl

theorem noteHits_iff (mv0 : ℤ) (hs : ∀ s ∈ ss, s.InRange) :
    (tallied lim mv0 ss).noteHits = ss.length ↔
      ∀ s ∈ ss, lim.ratioGateMa ≤ s.total ∧ s.minMa * 100 < s.maxMa * lim.ratioNotePct :=
  ratioHits_iff mv0 hs (fun t s => by rw [Tally.sample_eq]) rfl

theorem mvCritHits_iff (mv0 : ℤ) :
    (tallied lim mv0 ss).mvCritHits = ss.length ↔ ∀ s ∈ ss, s.minMv < lim.mvCrit :=
  tallied_iff Tally.mvCritHits (fun t s => by rw [Tally.sample_eq]) rfl
    (fun s _ => by rw [lowest_eq, ← GuardSample.minMv])

theorem mvWarnHits_iff (mv0 : ℤ) :
    (tallied lim mv0 ss).mvWarnHits = ss.length ↔ ∀ s ∈ ss, s.minMv < lim.mvWarn :=
  tallied_iff Tally.mvWarnHits (fun t s => by rw [Tally.sample_eq]) rfl
    (fun s _ => by rw [lowest_eq, ← GuardSample.minMv])

/-! ### Rule by rule -/

theorem openPinRule_entry (mv0 : ℤ) (pin : Pin) :
    (openPinRule lim (tallied lim mv0 ss) ss.length pin).map GuardFinding.entry
      = (firstTier [(.crit, lim.openPinMa)]
          (fun x s => lim.openGateMa ≤ s.total ∧ s.ma pin < x) ss).map
          (.openPin, pin.val + 1, ·) := by
  simp only [openPinRule, firstTier_cons, firstTier_nil, openHits_iff]
  split <;> rfl

theorem pinCurrentRule_entry (mv0 : ℤ) (pin : Pin) :
    (pinCurrentRule lim (tallied lim mv0 ss) ss.length pin).map GuardFinding.entry
      = (firstTier [(.crit, lim.pinCritMa), (.warn, lim.pinWarnMa)]
          (fun x s => x ≤ s.ma pin) ss).map (.pinCurrent, pin.val + 1, ·) := by
  simp only [pinCurrentRule, firstTier_cons, firstTier_nil, critHits_iff, warnHits_iff]
  split
  · rfl
  split <;> rfl

theorem imbalanceRule_entry (mv0 : ℤ) (hs : ∀ s ∈ ss, s.InRange) :
    (imbalanceRule lim (tallied lim mv0 ss) ss.length).map GuardFinding.entry
      = (firstTier [(.crit, lim.ratioCritPct), (.warn, lim.ratioWarnPct),
            (.note, lim.ratioNotePct)]
          (fun x s => lim.ratioGateMa ≤ s.total ∧ s.minMa * 100 < s.maxMa * x) ss).map
          (.imbalance, 0, ·) := by
  -- the else-if chain and the tiers branch on the same conditions, in the same order
  simp only [imbalanceRule, firstTier_cons, firstTier_nil, ratioCritHits_iff mv0 hs,
    ratioWarnHits_iff mv0 hs, noteHits_iff mv0 hs]
  split
  · rfl
  split
  · rfl
  split <;> rfl

theorem voltageRule_entry (mv0 : ℤ) :
    (voltageRule lim (tallied lim mv0 ss) ss.length).map GuardFinding.entry
      = (firstTier [(.crit, lim.mvCrit), (.warn, lim.mvWarn)] (fun x s => s.minMv < x) ss).map
          (.voltage, 0, ·) := by
  simp only [voltageRule, firstTier_cons, firstTier_nil, mvCritHits_iff, mvWarnHits_iff]
  split
  · rfl
  split <;> rfl

/-- What the rules pass to `add` is the rule table. -/
theorem ruleFindings_entry (lim : GuardLimits) (mv0 : ℤ) (hs : ∀ s ∈ ss, s.InRange) :
    (ruleFindings lim (tallied lim mv0 ss) ss.length).map GuardFinding.entry
      = ruleTable lim ss := by
  simp only [ruleFindings, ruleTable, List.map_append, List.map_filterMap, ← Option.toList_map,
    openPinRule_entry, pinCurrentRule_entry, imbalanceRule_entry mv0 hs, voltageRule_entry]

/-- The rules can never fill the findings array. -/
theorem ruleFindings_length_le (lim : GuardLimits) (t : Tally) (n : ℕ) :
    (ruleFindings lim t n).length ≤ 14 := by
  -- six and six pins, and two rules that speak once
  have hopen := List.length_filterMap_le (openPinRule lim t n) (List.finRange 6)
  have hcurrent := List.length_filterMap_le (pinCurrentRule lim t n) (List.finRange 6)
  have himbalance := Option.length_toList_le (o := imbalanceRule lim t n)
  have hvoltage := Option.length_toList_le (o := voltageRule lim t n)
  rw [List.length_finRange] at hopen hcurrent
  simp only [ruleFindings, List.length_append]
  omega

/-- Fourteen findings at most, so the cut at sixteen is no cut: what is recorded
is what the rules pass to `add`. -/
theorem guardEval_f (lim : GuardLimits) (s : GuardSample) (rest : List GuardSample) :
    (guardEval lim (s :: rest)).f
      = (ruleFindings lim (tallied lim (s.mv 0) (s :: rest)) (s :: rest).length).map
        GuardFinding.clip := by
  have hroom := ruleFindings_length_le lim (tallied lim (s.mv 0) (s :: rest)) (s :: rest).length
  rw [guardEval, GuardVerdict.addAll_f, GuardVerdict.start, List.nil_append,
    List.take_of_length_le (by rw [List.length_map]; exact hroom.trans (by decide))]

/-! ### Each entry once -/

theorem pinEntries_nodup (rule : GuardRule) (level : Pin → Option GuardLevel) :
    ((List.finRange 6).filterMap fun pin => (level pin).map (rule, pin.val + 1, ·)).Nodup := by
  refine (List.nodup_finRange 6).filterMap fun pin pin' e he he' => ?_
  obtain ⟨l, -, rfl⟩ := Option.map_eq_some_iff.mp he
  obtain ⟨l', -, heq⟩ := Option.map_eq_some_iff.mp he'
  simp only [Prod.mk.injEq, Nat.add_right_cancel_iff] at heq
  exact Fin.ext heq.2.1.symm

theorem pinEntries_rule {rule : GuardRule} {level : Pin → Option GuardLevel} {e : RuleEntry}
    (he : e ∈ (List.finRange 6).filterMap fun pin => (level pin).map (rule, pin.val + 1, ·)) :
    e.1 = rule := by
  obtain ⟨pin, -, hpin⟩ := List.mem_filterMap.mp he
  obtain ⟨l, -, rfl⟩ := Option.map_eq_some_iff.mp hpin
  rfl

theorem tierEntry_rule {rule : GuardRule} {level : Option GuardLevel} {e : RuleEntry}
    (he : e ∈ (level.map (rule, (0 : ℕ), ·)).toList) : e.1 = rule := by
  obtain ⟨l, -, rfl⟩ := Option.map_eq_some_iff.mp (Option.mem_toList.mp he)
  rfl

/-- The table never lists an entry twice: the rules differ, and so do the pins
of one rule. -/
theorem ruleTable_nodup (lim : GuardLimits) (ss : List GuardSample) : (ruleTable lim ss).Nodup := by
  -- entries of different rules differ, and those of one rule by their pin
  have hdisjoint : ∀ {l m : List RuleEntry} {P : GuardRule → Prop} {rule : GuardRule},
      (∀ e ∈ l, P e.1) → (∀ e ∈ m, e.1 = rule) → ¬ P rule → ∀ a ∈ l, ∀ b ∈ m, a ≠ b :=
    fun hl hm hP a ha b hb heq => hP (hm b hb ▸ heq ▸ hl a ha)
  have hone : ∀ o : Option RuleEntry, o.toList.Nodup := fun o => by cases o <;> simp
  unfold ruleTable
  refine List.nodup_append.mpr ⟨List.nodup_append.mpr ⟨List.nodup_append.mpr
    ⟨pinEntries_nodup _ _, pinEntries_nodup _ _, ?_⟩, hone _, ?_⟩,
    hone _, ?_⟩
  · exact hdisjoint (P := (· = .openPin)) (fun e he => pinEntries_rule he)
      (fun e he => pinEntries_rule he) (by decide)
  · refine hdisjoint (P := fun r => r = .openPin ∨ r = .pinCurrent) (fun e he => ?_)
      (fun e he => tierEntry_rule he) (by decide)
    exact (List.mem_append.mp he).imp pinEntries_rule pinEntries_rule
  · refine hdisjoint (P := fun r => (r = .openPin ∨ r = .pinCurrent) ∨ r = .imbalance)
      (fun e he => ?_) (fun e he => tierEntry_rule he) (by decide)
    exact (List.mem_append.mp he).imp
      (fun h => (List.mem_append.mp h).imp pinEntries_rule pinEntries_rule) tierEntry_rule

/-! ### The evaluator computes the table -/

/-- Ranking findings by alarm gives the verdict the levels deserve. -/
theorem mostSevere_worst (levels : List GuardLevel) :
    MostSevere levels (worst alarmRank .ok levels) := by
  have hrank : ∀ l : GuardLevel, l ≠ .note → alarmRank l = guardSeverity l :=
    fun l hl => if_neg hl
  have hle : ∀ l : GuardLevel, alarmRank l ≤ guardSeverity l := by
    intro l; cases l <;> decide
  refine ⟨fun l hl hnote => ?_, ?_⟩
  · rw [← hrank l hnote]
    exact (le_worst alarmRank hl .ok).trans (hle _)
  · rcases worst_mem alarmRank .ok levels with hok | hmem
    · exact Or.inl hok
    · exact Or.inr ⟨worst_alarmRank_ne_note levels, hmem⟩

/-- The level is the worst in the table, advisories apart. -/
theorem guardEval_level (lim : GuardLimits) (hne : ss ≠ []) (hs : ∀ s ∈ ss, s.InRange) :
    (guardEval lim ss).level = worst alarmRank .ok ((ruleTable lim ss).map fun e => e.2.2) := by
  obtain ⟨s, rest, rfl⟩ := List.exists_cons_of_ne_nil hne
  rw [guardEval, GuardVerdict.addAll_level, ← ruleFindings_entry lim (s.mv 0) hs, List.map_map]
  rfl

theorem guardEval_mostSevere (lim : GuardLimits) (hne : ss ≠ []) (hs : ∀ s ∈ ss, s.InRange) :
    MostSevere ((ruleTable lim ss).map fun e => e.2.2) (guardEval lim ss).level := by
  rw [guardEval_level lim hne hs]
  exact mostSevere_worst _

/-- **A full findings array costs detail, never severity.** Whatever is added, and
however often, to a verdict that starts empty at OK: the level is the most severe
added that is no advisory; there are as many findings as there were calls, up to
the size of the array; and those recorded are the first ones, in order, each with
nothing changed but a text cut to the size of its buffer. -/
theorem add_neverCostsSeverity (calls : List GuardFinding) :
    let v := calls.foldl GuardVerdict.add .start
    MostSevere (calls.map GuardFinding.level) v.level ∧
      v.f.length = min calls.length guardMaxFindings ∧
      v.f = (calls.take v.f.length).map fun call =>
        { call with detail := call.detail.take 95 } := by
  intro v
  have hf : v.f = (calls.map GuardFinding.clip).take guardMaxFindings :=
    GuardVerdict.addAll_f calls .start
  have hlength : v.f.length = min calls.length guardMaxFindings := by
    rw [hf, List.length_take, List.length_map, Nat.min_comm]
  refine ⟨?_, hlength, ?_⟩
  · -- the level is raised by every call, recorded or not
    rw [show v.level = _ from GuardVerdict.addAll_level calls .start]
    exact mostSevere_worst _
  · calc v.f = (calls.take guardMaxFindings).map GuardFinding.clip := by rw [hf, List.map_take]
      _ = (calls.take v.f.length).map GuardFinding.clip := by
          rw [hlength, Nat.min_comm, ← List.take_eq_take_min]

/-- A critical finding behind a full array is not recorded, and is the verdict. -/
example :
    let full : List GuardFinding := List.replicate 16 ⟨.warn, .voltage, 0, 0, []⟩
    let crit : GuardFinding := ⟨.crit, .voltage, 0, 0, []⟩
    let v := (full ++ [crit]).foldl GuardVerdict.add .start
    v.level = .crit ∧ v.f = full := by
  decide

/-- **The evaluator is the rule table.** For every limits value and every
non-empty list of admitted samples, the recorded findings are exactly the
entries of the table, each once and in its order; none is lost to the size of
the array; and the level is the most severe of theirs that is no advisory. -/
theorem guardEval_ruleTable (lim : GuardLimits) {ss : List GuardSample} (hne : ss ≠ [])
    (hs : ∀ s ∈ ss, s.InRange) :
    (guardEval lim ss).f.map GuardFinding.entry = ruleTable lim ss ∧
      (ruleTable lim ss).Nodup ∧
      MostSevere ((ruleTable lim ss).map fun e => e.2.2) (guardEval lim ss).level := by
  obtain ⟨s, rest, rfl⟩ := List.exists_cons_of_ne_nil hne
  have hentry := ruleFindings_entry lim (s.mv 0) hs
  have hall : ∀ calls : List GuardFinding,
      (calls.map GuardFinding.clip).map GuardFinding.entry = calls.map GuardFinding.entry :=
    fun calls => by rw [List.map_map]; rfl
  refine ⟨?_, ruleTable_nodup _ _, ?_⟩
  · rw [guardEval_f, hall, hentry]
  -- the level is raised by all findings passed to `add`, which are those recorded
  · rw [guardEval, GuardVerdict.addAll_level, ← hentry, List.map_map]
    exact mostSevere_worst _

/-- Two samples at different tiers: pin 1 is over its rating in the first and
over its warning point only in the second. -/
def mixedTiers : List GuardSample :=
  [⟨fun _ => 12000, fun pin => if pin.val = 0 then 9600 else 8000⟩,
    ⟨fun _ => 11900, fun pin => if pin.val = 0 then 9300 else 8000⟩]

/-- Tiers do not add up: what holds in both samples is the warning, and the
critical tier held in one only. -/
theorem guardEval_ruleTable_mixedTiers :
    (guardEval guardLimitsDefault mixedTiers).f.map GuardFinding.entry
        = [(.pinCurrent, 1, .warn)] ∧
      (guardEval guardLimitsDefault mixedTiers).level = .warn := by
  have htable : ruleTable guardLimitsDefault mixedTiers = [(.pinCurrent, 1, .warn)] := by
    decide +kernel
  have hne : mixedTiers ≠ [] := by decide
  obtain ⟨hf, -, hmost, hmem⟩ := guardEval_ruleTable guardLimitsDefault hne (by decide)
  rw [htable] at hf hmost hmem
  refine ⟨hf, ?_⟩
  rcases hmem with hok | ⟨-, hmem⟩
  · exact absurd (hok ▸ hmost .warn (by simp) (by decide)) (by decide)
  · simpa using hmem

end Astral
