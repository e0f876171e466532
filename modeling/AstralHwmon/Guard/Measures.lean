import AstralHwmon.Guard.RuleTable
import Mathlib.Order.Bounds.Basic

/-!
# What the value of a finding says

A finding carries a number, which its header calls the measured quantity. The
worst readings are kept apart from the hit counters, each behind its own gate, so
that the number and the tier it is reported at have to be brought together: the
tally's worst readings are the extremes over all samples (`worstMa_isGreatest`,
`worstPct_isLeast`, `worstMv_isLeast`), and what every sample meets, the extreme
meets.

The open-pin rule is the exception. It passes a constant where the others pass a
reading, so `guardEval_measures` holds exactly when the constant happens to be one:
when every pin it fires for read 0 in some sample.
-/

open CText Fold

namespace Astral

/-! ### Measured quantities -/

/-- The smallest current of a sample in percent of its largest, rounded down. -/
def GuardSample.ratioPct (s : GuardSample) : ℤ := 100 * s.minMa / s.maxMa

/-- The tiers of a rule, each with its threshold. -/
def GuardLimits.tiers (lim : GuardLimits) : GuardRule → List (GuardLevel × ℤ)
  | .openPin => [(.crit, lim.openPinMa)]
  | .pinCurrent => [(.crit, lim.pinCritMa), (.warn, lim.pinWarnMa)]
  | .imbalance =>
    [(.crit, lim.ratioCritPct), (.warn, lim.ratioWarnPct), (.note, lim.ratioNotePct)]
  | .voltage => [(.crit, lim.mvCrit), (.warn, lim.mvWarn)]
  | .read => []

/-- A finding's value is what it reports: a reading of the samples, the worst of
them where the rule looks for the worst, and on the side of the threshold that the
reported tier stands for. -/
def GuardFinding.Measures (lim : GuardLimits) (ss : List GuardSample) (f : GuardFinding) : Prop :=
  match f.rule with
  | .openPin => ∃ pin : Pin, f.pin = pin.val + 1 ∧ (∃ s ∈ ss, s.ma pin = f.value) ∧
      f.value < lim.openPinMa
  | .pinCurrent => ∃ pin : Pin, f.pin = pin.val + 1 ∧
      IsGreatest {x | ∃ s ∈ ss, s.ma pin = x} f.value ∧
      ∃ x, (f.level, x) ∈ lim.tiers .pinCurrent ∧ x ≤ f.value
  | .imbalance => IsLeast {x | ∃ s ∈ ss, s.ratioPct = x} f.value ∧
      ∃ x, (f.level, x) ∈ lim.tiers .imbalance ∧ f.value < x
  | .voltage => IsLeast {x | ∃ s ∈ ss, ∃ pin, s.mv pin = x} f.value ∧
      ∃ x, (f.level, x) ∈ lim.tiers .voltage ∧ f.value < x
  | .read => False

/-! ### The trackers of the tally -/

variable {lim : GuardLimits} {ss : List GuardSample} {mv0 : ℤ}

theorem tracks_worstMa (lim : GuardLimits) (pin : Pin) :
    Tracks id (Tally.sample lim) (fun t => t.worstMa pin) (fun s => some (s.ma pin)) := by
  intro t s
  dsimp only
  rw [Tally.sample, Tally.ratios_eq, Tally.opens_eq]
  rfl

theorem tracks_worstMv (lim : GuardLimits) :
    Tracks OrderDual.toDual (Tally.sample lim) Tally.worstMv (fun s => some (lowest s.mv)) := by
  intro t s
  rw [Tally.sample, Tally.ratios_eq, Tally.opens_eq]
  rfl

/-- The percentage is only looked at behind R3's gate. -/
theorem Tally.ratios_worstPct (t : Tally) (s : GuardSample) : (t.ratios lim s).worstPct =
    if totalMa s ≥ lim.ratioGateMa ∧ highest s.ma > 0 then
      worse OrderDual.toDual t.worstPct ((lowest s.ma * 100).tdiv (highest s.ma))
    else t.worstPct := by
  unfold Tally.ratios
  by_cases hgate : totalMa s ≥ lim.ratioGateMa
  · by_cases hhi : highest s.ma > 0
    · simp only [hgate, hhi, and_self, if_true]
      rfl
    · simp [hgate, hhi]
  · simp [hgate]

theorem tracks_worstPct (lim : GuardLimits) :
    Tracks OrderDual.toDual (Tally.sample lim) Tally.worstPct (fun s =>
      if totalMa s ≥ lim.ratioGateMa ∧ highest s.ma > 0
      then some ((lowest s.ma * 100).tdiv (highest s.ma)) else none) := by
  intro t s
  have hkeep : (((t.currents lim s).voltages lim s).opens lim s).worstPct = t.worstPct := by
    rw [Tally.opens_eq]; rfl
  rw [Tally.sample, Tally.ratios_worstPct, hkeep]
  dsimp only
  split <;> rfl

theorem worstMa_isGreatest (hne : ss ≠ []) (hs : ∀ s ∈ ss, s.InRange) (pin : Pin) :
    IsGreatest {x | ∃ s ∈ ss, s.ma pin = x} ((tallied lim mv0 ss).worstMa pin) := by
  have hfold : (tallied lim mv0 ss).worstMa pin = worst id 0 (ss.map fun s => s.ma pin) := by
    rw [tallied, (tracks_worstMa lim pin).foldl, List.filterMap_eq_map']
    rfl
  rw [hfold]
  constructor
  · -- no current is below the zero it starts from
    refine List.mem_map.mp (worst_mem_of_le id Function.injective_id (by simpa using hne) ?_)
    intro x hx
    obtain ⟨s, hmem, rfl⟩ := List.mem_map.mp hx
    exact (hs s hmem pin).2.1
  · rintro x ⟨s, hmem, rfl⟩
    have hx : s.ma pin ∈ ss.map fun s => s.ma pin := List.mem_map.mpr ⟨s, hmem, rfl⟩
    exact le_worst id hx 0

theorem worstMv_isLeast {s₀ : GuardSample} (h₀ : s₀ ∈ ss) (pin₀ : Pin) :
    IsLeast {x | ∃ s ∈ ss, ∃ pin, s.mv pin = x} (tallied lim (s₀.mv pin₀) ss).worstMv := by
  -- the running minimum starts at a voltage of the first sample
  have hfold : (tallied lim (s₀.mv pin₀) ss).worstMv
      = worst OrderDual.toDual (s₀.mv pin₀) (ss.map fun s => lowest s.mv) := by
    rw [tallied, (tracks_worstMv lim).foldl, List.filterMap_eq_map']
    rfl
  rw [hfold]
  constructor
  · rcases worst_mem OrderDual.toDual (s₀.mv pin₀) (ss.map fun s => lowest s.mv) with heq | hmem
    · exact ⟨s₀, h₀, pin₀, heq.symm⟩
    · obtain ⟨s, hs, heq⟩ := List.mem_map.mp hmem
      obtain ⟨pin, hpin⟩ := lowest_mem s.mv
      exact ⟨s, hs, pin, hpin ▸ heq⟩
  · rintro x ⟨s, hs, pin, rfl⟩
    have hle := OrderDual.toDual_le_toDual.mp
      (le_worst OrderDual.toDual (List.mem_map.mpr ⟨s, hs, rfl⟩ :
        lowest s.mv ∈ ss.map fun s => lowest s.mv) (s₀.mv pin₀))
    exact hle.trans (lowest_le s.mv pin)

theorem GuardSample.InRange.ratioPct_le {s : GuardSample} (hs : s.InRange) : s.ratioPct ≤ 100 := by
  have hle : s.minMa ≤ s.maxMa := by
    rw [GuardSample.minMa, GuardSample.maxMa, ← lowest_eq, ← highest_eq]
    exact (lowest_le s.ma 0).trans (le_highest s.ma 0)
  rcases hs.maxMa_nonneg.eq_or_lt with hzero | hpos
  · rw [GuardSample.ratioPct, ← hzero, Int.ediv_zero]; decide
  · exact Int.ediv_le_of_le_mul hpos (by omega)

/-- Where every sample passes R3's gate, the smallest percentage is kept. -/
theorem worstPct_isLeast (hne : ss ≠ []) (hs : ∀ s ∈ ss, s.InRange)
    (hgate : ∀ s ∈ ss, totalMa s ≥ lim.ratioGateMa ∧ highest s.ma > 0) :
    IsLeast {x | ∃ s ∈ ss, s.ratioPct = x} (tallied lim mv0 ss).worstPct := by
  have hfold : (tallied lim mv0 ss).worstPct
      = worst OrderDual.toDual 100 (ss.map GuardSample.ratioPct) := by
    rw [tallied, (tracks_worstPct lim).foldl, ← List.filterMap_eq_map']
    congr 1
    refine List.filterMap_congr fun s hmem => ?_
    -- of readings that are not negative, rounding to zero is rounding down
    have hmin := (hs s hmem).minMa_nonneg
    rw [if_pos (hgate s hmem), lowest_eq, highest_eq, ← GuardSample.minMa, ← GuardSample.maxMa,
      Int.tdiv_eq_ediv_of_nonneg (by omega), mul_comm]
    rfl
  rw [hfold]
  constructor
  · refine List.mem_map.mp (worst_mem_of_le OrderDual.toDual (OrderDual.toDual.injective)
      (by simpa using hne) ?_)
    intro x hx
    obtain ⟨s, hmem, rfl⟩ := List.mem_map.mp hx
    exact OrderDual.toDual_le_toDual.mpr (hs s hmem).ratioPct_le
  · rintro x ⟨s, hmem, rfl⟩
    exact OrderDual.toDual_le_toDual.mp
      (le_worst OrderDual.toDual (List.mem_map.mpr ⟨s, hmem, rfl⟩) 100)

/-! ### Value by value -/

/-- A pin that is open in every sample. -/
def AlwaysOpen (lim : GuardLimits) (ss : List GuardSample) (pin : Pin) : Prop :=
  ∀ s ∈ ss, lim.openGateMa ≤ s.total ∧ s.ma pin < lim.openPinMa

theorem exists_openPinRule (mv0 : ℤ) (pin : Pin) :
    (∃ f, openPinRule lim (tallied lim mv0 ss) ss.length pin = some f) ↔ AlwaysOpen lim ss pin := by
  rw [AlwaysOpen, ← openHits_iff mv0 pin]
  unfold openPinRule
  split
  next hhits => exact ⟨fun _ => hhits, fun _ => ⟨_, rfl⟩⟩
  next hhits => exact ⟨fun ⟨_, h⟩ => absurd h (by simp), fun h => absurd h hhits⟩

section Rules

variable {f : GuardFinding} {pin : Pin}

/-- Whatever the pin carries, the open-pin rule gives 0 as its value. -/
theorem openPinRule_measures (hf : openPinRule lim (tallied lim mv0 ss) ss.length pin = some f)
    (hopen : 0 < lim.openPinMa) : f.Measures lim ss ↔ ∃ s ∈ ss, s.ma pin = 0 := by
  unfold openPinRule at hf
  split at hf
  · obtain rfl := Option.some.inj hf
    refine ⟨fun ⟨pin', hpin, hmem, _⟩ => ?_, fun hmem => ⟨pin, rfl, hmem, hopen⟩⟩
    obtain rfl : pin = pin' := Fin.ext (Nat.succ.inj hpin)
    exact hmem
  · exact absurd hf (by simp)

theorem pinCurrentRule_measures (hne : ss ≠ []) (hs : ∀ s ∈ ss, s.InRange)
    (hf : pinCurrentRule lim (tallied lim mv0 ss) ss.length pin = some f) :
    f.Measures lim ss := by
  have hworst : IsGreatest {x | ∃ s ∈ ss, s.ma pin = x} ((tallied lim mv0 ss).worstMa pin) :=
    worstMa_isGreatest hne hs pin
  -- what every reading is at or above, the largest is at or above
  have habove : ∀ {x : ℤ}, (∀ s ∈ ss, x ≤ s.ma pin) → x ≤ (tallied lim mv0 ss).worstMa pin := by
    intro x hx
    obtain ⟨s, hmem, heq⟩ := hworst.1
    exact heq ▸ hx s hmem
  unfold pinCurrentRule at hf
  split at hf
  next hcrit =>
    obtain rfl := Option.some.inj hf
    exact ⟨pin, rfl, hworst, _, List.mem_cons_self, habove ((critHits_iff mv0 pin).mp hcrit)⟩
  split at hf
  next hwarn =>
    obtain rfl := Option.some.inj hf
    exact ⟨pin, rfl, hworst, _, List.mem_cons_of_mem _ List.mem_cons_self,
      habove ((warnHits_iff mv0 pin).mp hwarn)⟩
  exact absurd hf (by simp)

/-- A tier of R3 that every sample meets, the smallest percentage meets. -/
theorem worstPct_lt (hne : ss ≠ []) (hs : ∀ s ∈ ss, s.InRange) {pct : ℤ}
    (htier : ∀ s ∈ ss, lim.ratioGateMa ≤ s.total ∧ s.minMa * 100 < s.maxMa * pct) :
    IsLeast {x | ∃ s ∈ ss, s.ratioPct = x} (tallied lim mv0 ss).worstPct ∧
      (tallied lim mv0 ss).worstPct < pct := by
  have huneven : ∀ s ∈ ss, s.Uneven lim pct := fun s hmem =>
    (s.uneven_iff (hs s hmem) pct).mpr (htier s hmem)
  have hleast : IsLeast {x | ∃ s ∈ ss, s.ratioPct = x} (tallied lim mv0 ss).worstPct :=
    worstPct_isLeast hne hs fun s hmem => ⟨(huneven s hmem).1, (huneven s hmem).2.1⟩
  refine ⟨hleast, ?_⟩
  -- the smallest percentage is some sample's, and each lies below the tier's
  obtain ⟨s, hmem, heq⟩ := hleast.1
  have hpos : 0 < s.maxMa := by
    rw [GuardSample.maxMa, ← highest_eq]
    exact (huneven s hmem).2.1
  have hlt := (htier s hmem).2
  rw [← heq, GuardSample.ratioPct]
  exact Int.ediv_lt_of_lt_mul hpos (by rw [mul_comm 100, mul_comm pct]; exact hlt)

theorem imbalanceRule_measures (hne : ss ≠ []) (hs : ∀ s ∈ ss, s.InRange)
    (hf : imbalanceRule lim (tallied lim mv0 ss) ss.length = some f) : f.Measures lim ss := by
  unfold imbalanceRule at hf
  -- the tiers from the highest down
  split at hf
  next hcrit =>
    obtain rfl := Option.some.inj hf
    obtain ⟨hleast, hlt⟩ := worstPct_lt hne hs ((ratioCritHits_iff mv0 hs).mp hcrit)
    exact ⟨hleast, _, by simp [GuardLimits.tiers], hlt⟩
  split at hf
  next hwarn =>
    obtain rfl := Option.some.inj hf
    obtain ⟨hleast, hlt⟩ := worstPct_lt hne hs ((ratioWarnHits_iff mv0 hs).mp hwarn)
    exact ⟨hleast, _, List.mem_cons_of_mem _ List.mem_cons_self, hlt⟩
  split at hf
  next hnote =>
    obtain rfl := Option.some.inj hf
    obtain ⟨hleast, hlt⟩ := worstPct_lt hne hs ((noteHits_iff mv0 hs).mp hnote)
    exact ⟨hleast, _, List.mem_cons_of_mem _ (List.mem_cons_of_mem _ List.mem_cons_self), hlt⟩
  exact absurd hf (by simp)

theorem voltageRule_measures {s₀ : GuardSample} (h₀ : s₀ ∈ ss) {pin₀ : Pin}
    (hf : voltageRule lim (tallied lim (s₀.mv pin₀) ss) ss.length = some f) :
    f.Measures lim ss := by
  have hworst : IsLeast {x | ∃ s ∈ ss, ∃ pin, s.mv pin = x}
      (tallied lim (s₀.mv pin₀) ss).worstMv := worstMv_isLeast h₀ pin₀
  -- what every sample's lowest is below, the worst is below
  have hbelow : ∀ {x : ℤ}, (∀ s ∈ ss, s.minMv < x) →
      (tallied lim (s₀.mv pin₀) ss).worstMv < x := by
    intro x hx
    obtain ⟨pin, hpin⟩ := lowest_mem s₀.mv
    have hlt := hx s₀ h₀
    rw [GuardSample.minMv, ← lowest_eq, hpin] at hlt
    exact (hworst.2 ⟨s₀, h₀, pin, rfl⟩).trans_lt hlt
  unfold voltageRule at hf
  split at hf
  next hcrit =>
    obtain rfl := Option.some.inj hf
    exact ⟨hworst, _, List.mem_cons_self, hbelow ((mvCritHits_iff _).mp hcrit)⟩
  split at hf
  next hwarn =>
    obtain rfl := Option.some.inj hf
    exact ⟨hworst, _, List.mem_cons_of_mem _ List.mem_cons_self,
      hbelow ((mvWarnHits_iff _).mp hwarn)⟩
  exact absurd hf (by simp)

end Rules

/-- Recording a finding cuts its text and nothing else. -/
theorem GuardFinding.clip_measures (f : GuardFinding) :
    f.clip.Measures lim ss ↔ f.Measures lim ss := Iff.rfl

/-- **What a finding's value measures.** On admitted samples and limits as the
program tunes them, every recorded finding carries the quantity it reports exactly
when every pin that is open throughout has read 0 at least once: the open-pin rule
reports 0 whatever the pin carries. -/
theorem guardEval_measures {lim : GuardLimits} (hlim : lim.Tuned) {ss : List GuardSample}
    (hne : ss ≠ []) (hs : ∀ s ∈ ss, s.InRange) :
    (∀ f ∈ (guardEval lim ss).f, f.Measures lim ss) ↔
      ∀ pin, AlwaysOpen lim ss pin → ∃ s ∈ ss, s.ma pin = 0 := by
  obtain ⟨s₀, rest, rfl⟩ := List.exists_cons_of_ne_nil hne
  have hopen : 0 < lim.openPinMa := by
    rw [hlim.2.2]
    change (0 : ℤ) < 500
    decide
  rw [guardEval_f, List.forall_mem_map]
  simp only [GuardFinding.clip_measures, ruleFindings, List.forall_mem_append,
    List.mem_filterMap, List.mem_finRange, true_and, Option.mem_toList]
  -- the other three rules measure what they report; the open-pin rule says 0
  constructor
  · rintro ⟨⟨⟨hopens, -⟩, -⟩, -⟩ pin halways
    obtain ⟨f, hf⟩ := (exists_openPinRule (s₀.mv 0) pin).mpr halways
    exact (openPinRule_measures hf hopen).mp (hopens f ⟨pin, hf⟩)
  · intro hzero
    refine ⟨⟨⟨?_, ?_⟩, ?_⟩, ?_⟩
    · rintro f ⟨pin, hf⟩
      have halways := (exists_openPinRule (s₀.mv 0) pin).mp ⟨f, hf⟩
      exact (openPinRule_measures hf hopen).mpr (hzero pin halways)
    · rintro f ⟨pin, hf⟩
      exact pinCurrentRule_measures hne hs hf
    · exact fun f hf => imbalanceRule_measures hne hs hf
    · exact fun f hf => voltageRule_measures List.mem_cons_self hf

/-- A sample in which pin 1 carries `ma` and the others 8 A. -/
def looseContact (ma : ℤ) : GuardSample where
  mv _ := 12000
  ma pin := if pin.val = 0 then ma else 8000

/-- A contact that is open in both samples, and dead in the second, has read the 0 that is
reported. -/
theorem guardEval_measures_dead :
    (∃ f ∈ (guardEval guardLimitsDefault [looseContact 100, looseContact 0]).f,
      f.rule = .openPin) ∧
    ∀ f ∈ (guardEval guardLimitsDefault [looseContact 100, looseContact 0]).f,
      f.Measures guardLimitsDefault [looseContact 100, looseContact 0] := by
  refine ⟨by decide +kernel,
    (guardEval_measures (by unfold GuardLimits.Tuned; decide) (by simp) (by decide)).mpr ?_⟩
  intro pin halways
  have hlast : looseContact 0 ∈ [looseContact 100, looseContact 0] := by simp
  have hpin : pin.val = 0 := by
    -- the other pins carry 8 A, in this sample as in both
    by_contra h
    have hread : (looseContact 0).ma pin = 8000 := if_neg h
    have hlow := (halways _ hlast).2
    rw [hread] at hlow
    exact absurd hlow (by decide)
  exact ⟨_, hlast, if_pos hpin⟩

/-- A loose contact that still carries 100 mA is reported as carrying 0. -/
theorem guardEval_measures_loose :
    ¬ ∀ f ∈ (guardEval guardLimitsDefault [looseContact 100, looseContact 100]).f,
      f.Measures guardLimitsDefault [looseContact 100, looseContact 100] := by
  intro hall
  have hfind : ∃ f ∈ (guardEval guardLimitsDefault [looseContact 100, looseContact 100]).f,
      f.rule = .openPin ∧ f.value = 0 := by
    decide +kernel
  obtain ⟨f, hf, hrule, hvalue⟩ := hfind
  have hmeasures := hall f hf
  rw [GuardFinding.Measures, hrule, hvalue] at hmeasures
  -- no pin has read 0
  obtain ⟨pin, -, ⟨s, hs, hzero⟩, -⟩ := hmeasures
  have hnever : ∀ s ∈ [looseContact 100, looseContact 100], ∀ pin, s.ma pin ≠ 0 := by decide
  exact hnever s hs pin hzero

end Astral
