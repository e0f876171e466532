import AstralHwmon.Guard.Measures
import Mathlib.Logic.Equiv.Basic

/-!
# What the verdict depends on

The rule table has fourteen rows, one for each `Fault` that the guard looks for. A row
speaks at the first tier whose test every sample meets, so that a fault raises the
verdict exactly when it is there in all of them (`guardEval_persists`,
`Fault.Persists.le_guardEval`).

From this follows what the level cannot depend on: neither the order of the samples,
nor how often one was taken, nor which pin is which (`guardEval_alarm_mono`). The same
goes for the findings with their values and texts, as far as the samples are concerned:
the verdict is a function of the set of them (`guardEval_congr`).
-/

open CText Fold

namespace Astral

/-! ### Faults -/

/-- What a row of the rule table looks for. -/
inductive Fault
  | openPin (pin : Pin)
  | pinCurrent (pin : Pin)
  | imbalance
  | voltage
  deriving DecidableEq

/-- The rule that reports the fault. -/
def Fault.rule : Fault → GuardRule
  | .openPin _ => .openPin
  | .pinCurrent _ => .pinCurrent
  | .imbalance => .imbalance
  | .voltage => .voltage

/-- The pin a finding about the fault names; 0 for the whole connector. -/
def Fault.pin : Fault → ℕ
  | .openPin pin | .pinCurrent pin => pin.val + 1
  | .imbalance | .voltage => 0

/-- The test of the fault against the threshold of a tier. -/
def Fault.Test (lim : GuardLimits) (x : ℤ) (s : GuardSample) : Fault → Prop
  | .openPin pin => lim.openGateMa ≤ s.total ∧ s.ma pin < x
  | .pinCurrent pin => x ≤ s.ma pin
  | .imbalance => lim.ratioGateMa ≤ s.total ∧ s.minMa * 100 < s.maxMa * x
  | .voltage => s.minMv < x

instance (lim : GuardLimits) (fault : Fault) (x : ℤ) :
    DecidablePred fun s => fault.Test lim x s := fun _ => by
  cases fault <;> unfold Fault.Test <;> infer_instance

/-- The rows of the table, in order. -/
def Fault.rows : List Fault :=
  (List.finRange 6).map .openPin ++ (List.finRange 6).map .pinCurrent ++ [.imbalance, .voltage]

theorem Fault.mem_rows (fault : Fault) : fault ∈ rows := by
  cases fault <;> simp [rows]

/-- What a row says about a list of samples. -/
def Fault.level (lim : GuardLimits) (ss : List GuardSample) (fault : Fault) : Option GuardLevel :=
  firstTier (lim.tiers fault.rule) (fun x s => fault.Test lim x s) ss

theorem ruleTable_eq_rows (lim : GuardLimits) (ss : List GuardSample) :
    ruleTable lim ss = Fault.rows.filterMap fun fault =>
      (fault.level lim ss).map (fault.rule, fault.pin, ·) := by
  have htail : ∀ o o' : Option RuleEntry,
      o.toList ++ o'.toList = [o, o'].filterMap id := by
    rintro (_ | a) (_ | b) <;> rfl
  unfold ruleTable Fault.rows
  rw [List.filterMap_append, List.filterMap_append, List.filterMap_map, List.filterMap_map,
    List.append_assoc _ (Option.toList _) (Option.toList _), htail]
  rfl

/-! ### When a fault raises the verdict -/

variable {lim : GuardLimits} {ss : List GuardSample}

section Tier

variable {tiers : List (GuardLevel × ℤ)} {test : ℤ → GuardSample → Prop}
  [∀ x, DecidablePred (test x)] {level : GuardLevel} {x : ℤ}

theorem firstTier_sound (h : firstTier tiers test ss = some level) :
    ∃ x, (level, x) ∈ tiers ∧ ∀ s ∈ ss, test x s := by
  obtain ⟨⟨l, x⟩, hfind, rfl⟩ := Option.map_eq_some_iff.mp h
  refine ⟨x, List.mem_of_find?_eq_some hfind, ?_⟩
  simpa using List.find?_some hfind

/-- Where the tiers go from the most severe down, the first that is met is at least as
severe as any that is. -/
theorem firstTier_complete
    (hsorted : tiers.Pairwise fun a b => alarmRank b.1 ≤ alarmRank a.1)
    (hmem : (level, x) ∈ tiers) (hall : ∀ s ∈ ss, test x s) :
    ∃ l, firstTier tiers test ss = some l ∧ alarmRank level ≤ alarmRank l := by
  induction tiers with
  | nil => exact absurd hmem List.not_mem_nil
  | cons tier tiers ih =>
    obtain ⟨hhead, htail⟩ := List.pairwise_cons.mp hsorted
    obtain ⟨l, y⟩ := tier
    rw [firstTier_cons]
    by_cases hy : ∀ s ∈ ss, test y s
    · rw [if_pos hy]
      refine ⟨l, rfl, ?_⟩
      rcases List.mem_cons.mp hmem with heq | hmem
      · rw [(Prod.mk.inj heq).1]
      · exact hhead _ hmem
    · rw [if_neg hy]
      -- the tier that is met is not this one
      refine ih htail ((List.mem_cons.mp hmem).resolve_left fun heq => hy ?_)
      rwa [← (Prod.mk.inj heq).2]

end Tier

theorem GuardLimits.tiers_sorted (lim : GuardLimits) (rule : GuardRule) :
    (lim.tiers rule).Pairwise fun a b => alarmRank b.1 ≤ alarmRank a.1 := by
  cases rule <;> simp [tiers, alarmRank, guardSeverity]

/-- A fault is there, at a tier, in every sample. -/
def Fault.Persists (lim : GuardLimits) (ss : List GuardSample) (level : GuardLevel)
    (fault : Fault) : Prop :=
  ∃ x, (level, x) ∈ lim.tiers fault.rule ∧ ∀ s ∈ ss, fault.Test lim x s

/-- A level that is raised is that of a fault in every sample. -/
theorem guardEval_persists (hne : ss ≠ []) (hs : ∀ s ∈ ss, s.InRange)
    (hlevel : 0 < alarmRank (guardEval lim ss).level) :
    ∃ fault : Fault, fault.Persists lim ss (guardEval lim ss).level := by
  have hworst := guardEval_level lim hne hs
  -- the worst is none of the start's doing
  have hmem : (guardEval lim ss).level ∈ (ruleTable lim ss).map fun e => e.2.2 := by
    rw [hworst]
    refine (worst_mem alarmRank .ok _).resolve_left fun hok => ?_
    rw [hworst, hok] at hlevel
    exact absurd hlevel (by decide)
  obtain ⟨e, he, heq⟩ := List.mem_map.mp hmem
  rw [ruleTable_eq_rows] at he
  obtain ⟨fault, -, hrow⟩ := List.mem_filterMap.mp he
  obtain ⟨l, hl, rfl⟩ := Option.map_eq_some_iff.mp hrow
  rw [← heq]
  exact ⟨fault, firstTier_sound hl⟩

/-- A fault that is in every sample raises the level to its own. -/
theorem Fault.Persists.le_guardEval {fault : Fault} {level : GuardLevel}
    (h : fault.Persists lim ss level) (hne : ss ≠ []) (hs : ∀ s ∈ ss, s.InRange) :
    alarmRank level ≤ alarmRank (guardEval lim ss).level := by
  obtain ⟨x, hx, hall⟩ := h
  obtain ⟨l, hl, hle⟩ : ∃ l, fault.level lim ss = some l ∧ alarmRank level ≤ alarmRank l :=
    firstTier_complete (lim.tiers_sorted fault.rule) hx hall
  have hrow : (fault.rule, fault.pin, l) ∈ ruleTable lim ss := by
    rw [ruleTable_eq_rows]
    exact List.mem_filterMap.mpr
      ⟨fault, fault.mem_rows, Option.map_eq_some_iff.mpr ⟨l, hl, rfl⟩⟩
  have hmem : l ∈ (ruleTable lim ss).map fun e => e.2.2 := List.mem_map.mpr ⟨_, hrow, rfl⟩
  rw [guardEval_level lim hne hs]
  exact hle.trans (le_worst alarmRank hmem .ok)

/-! ### Pins renamed -/

/-- A sample with its pins renamed. -/
def GuardSample.rename (σ : Equiv.Perm Pin) (s : GuardSample) : GuardSample :=
  ⟨s.mv ∘ σ, s.ma ∘ σ⟩

/-- The same fault after the pins are renamed. -/
def Fault.rename (σ : Equiv.Perm Pin) : Fault → Fault
  | .openPin pin => .openPin (σ.symm pin)
  | .pinCurrent pin => .pinCurrent (σ.symm pin)
  | .imbalance => .imbalance
  | .voltage => .voltage

@[simp] theorem Fault.rename_rule (σ : Equiv.Perm Pin) (fault : Fault) :
    (fault.rename σ).rule = fault.rule := by
  cases fault <;> rfl

/-- The smallest reading is the smallest of the pins in any order. -/
theorem inf'_comp_perm (σ : Equiv.Perm Pin) (reading : Pin → ℤ) :
    Finset.univ.inf' Finset.univ_nonempty (reading ∘ σ)
      = Finset.univ.inf' Finset.univ_nonempty reading := by
  apply le_antisymm
  · refine Finset.le_inf' _ _ fun pin _ => ?_
    have hle := Finset.inf'_le (reading ∘ σ) (Finset.mem_univ (σ.symm pin))
    rwa [Function.comp_apply, Equiv.apply_symm_apply] at hle
  · exact Finset.le_inf' _ _ fun pin _ => Finset.inf'_le reading (Finset.mem_univ (σ pin))

theorem sup'_comp_perm (σ : Equiv.Perm Pin) (reading : Pin → ℤ) :
    Finset.univ.sup' Finset.univ_nonempty (reading ∘ σ)
      = Finset.univ.sup' Finset.univ_nonempty reading := by
  apply le_antisymm
  · exact Finset.sup'_le _ _ fun pin _ => Finset.le_sup' reading (Finset.mem_univ (σ pin))
  · refine Finset.sup'_le _ _ fun pin _ => ?_
    have hle := Finset.le_sup' (reading ∘ σ) (Finset.mem_univ (σ.symm pin))
    rwa [Function.comp_apply, Equiv.apply_symm_apply] at hle

/-- A sample with its pins renamed shows the fault with its pin renamed. -/
theorem Fault.test_rename (σ : Equiv.Perm Pin) (fault : Fault) (lim : GuardLimits) (x : ℤ)
    (s : GuardSample) : (fault.rename σ).Test lim x (s.rename σ) ↔ fault.Test lim x s := by
  have htotal : (s.rename σ).total = s.total := Equiv.sum_comp σ s.ma
  have hcurrent : ∀ pin, (s.rename σ).ma (σ.symm pin) = s.ma pin := fun pin =>
    congrArg s.ma (σ.apply_symm_apply pin)
  have hmin : (s.rename σ).minMa = s.minMa := inf'_comp_perm σ s.ma
  have hmax : (s.rename σ).maxMa = s.maxMa := sup'_comp_perm σ s.ma
  have hmv : (s.rename σ).minMv = s.minMv := inf'_comp_perm σ s.mv
  cases fault with
  | openPin pin => simp only [rename, Test, htotal, hcurrent]
  | pinCurrent pin => simp only [rename, Test, hcurrent]
  | imbalance => simp only [rename, Test, htotal, hmin, hmax]
  | voltage => simp only [rename, Test, hmv]

theorem GuardSample.InRange.rename {s : GuardSample} (h : s.InRange) (σ : Equiv.Perm Pin) :
    (s.rename σ).InRange := fun pin => h (σ pin)

theorem alarmRank_eq_severity {level : GuardLevel} (h : level ≠ .note) :
    alarmRank level = guardSeverity level := if_neg h

/-- **More samples never raise the verdict**, nor does it matter which pin is which. If
every sample of a run is one of another run, under one renaming of the pins, the level
of the first is at least as severe as that of the other. In particular the level does
not change with the order of the samples, with a sample that comes again, or with the
pins in another order. -/
theorem guardEval_alarm_mono (lim : GuardLimits) (σ : Equiv.Perm Pin) {ss ss' : List GuardSample}
    (hne : ss' ≠ []) (hs : ∀ s ∈ ss, s.InRange) (hsub : ∀ s' ∈ ss', ∃ s ∈ ss, s' = s.rename σ) :
    guardSeverity (guardEval lim ss).level ≤ guardSeverity (guardEval lim ss').level := by
  have hs' : ∀ s' ∈ ss', s'.InRange := by
    intro s' hs'
    obtain ⟨s, hmem, rfl⟩ := hsub s' hs'
    exact (hs s hmem).rename σ
  have hne' : ss ≠ [] := by
    obtain ⟨s', hs'⟩ := List.exists_mem_of_ne_nil _ hne
    obtain ⟨s, hmem, -⟩ := hsub s' hs'
    exact List.ne_nil_of_mem hmem
  rw [← alarmRank_eq_severity (guardEval_level_ne_note lim ss),
    ← alarmRank_eq_severity (guardEval_level_ne_note lim ss')]
  rcases Nat.eq_zero_or_pos (alarmRank (guardEval lim ss).level) with hzero | hpos
  · rw [hzero]
    exact Nat.zero_le _
  · -- the fault behind the first level, renamed, is in every sample of the second run
    obtain ⟨fault, x, hx, hall⟩ := guardEval_persists hne' hs hpos
    have hrenamed : (fault.rename σ).Persists lim ss' (guardEval lim ss).level := by
      refine ⟨x, by rwa [Fault.rename_rule], fun s' hs' => ?_⟩
      obtain ⟨s, hmem, rfl⟩ := hsub s' hs'
      exact (fault.test_rename σ lim x s).mpr (hall s hmem)
    exact hrenamed.le_guardEval hne hs'

/-- The one sample of `mixedTiers` over the rating, taken twice and with the connector
the other way round, is worse than the two samples of it. -/
theorem guardEval_alarm_mono_mixedTiers :
    let hot : GuardSample := ⟨fun _ => 12000, fun pin => if pin.val = 0 then 9600 else 8000⟩
    guardSeverity (guardEval guardLimitsDefault mixedTiers).level
      ≤ guardSeverity (guardEval guardLimitsDefault
          [hot.rename (Equiv.swap 0 5), hot.rename (Equiv.swap 0 5)]).level := by
  intro hot
  refine guardEval_alarm_mono guardLimitsDefault (Equiv.swap 0 5) (List.cons_ne_nil _ _)
    (by decide) fun s' hs' => ⟨hot, List.mem_cons_self, ?_⟩
  rcases List.mem_cons.mp hs' with rfl | hs'
  · rfl
  · exact List.mem_singleton.mp hs'

/-! ### The set of the samples -/

/-- Two tallies, each with its number of samples, that the rules cannot tell apart. -/
structure Tally.Agrees (t : Tally) (n : ℕ) (t' : Tally) (n' : ℕ) : Prop where
  opens : ∀ pin, t.openHits pin = n ↔ t'.openHits pin = n'
  crit : ∀ pin, t.critHits pin = n ↔ t'.critHits pin = n'
  warn : ∀ pin, t.warnHits pin = n ↔ t'.warnHits pin = n'
  ma : t.worstMa = t'.worstMa
  ratioCrit : t.ratioCritHits = n ↔ t'.ratioCritHits = n'
  ratioWarn : t.ratioWarnHits = n ↔ t'.ratioWarnHits = n'
  note : t.noteHits = n ↔ t'.noteHits = n'
  pct : t.worstPct = t'.worstPct
  mvCrit : t.mvCritHits = n ↔ t'.mvCritHits = n'
  mvWarn : t.mvWarnHits = n ↔ t'.mvWarnHits = n'
  mv : t.worstMv = t'.worstMv

theorem Tally.Agrees.ruleFindings_eq {t t' : Tally} {n n' : ℕ} (h : t.Agrees n t' n')
    (lim : GuardLimits) : ruleFindings lim t n = ruleFindings lim t' n' := by
  have hopen : openPinRule lim t n = openPinRule lim t' n' := by
    ext1 pin
    simp only [openPinRule, h.opens]
  have hcurrent : pinCurrentRule lim t n = pinCurrentRule lim t' n' := by
    ext1 pin
    simp only [pinCurrentRule, h.crit, h.warn, h.ma]
  have himbalance : imbalanceRule lim t n = imbalanceRule lim t' n' := by
    simp only [imbalanceRule, h.ratioCrit, h.ratioWarn, h.note, h.pct]
  have hvoltage : voltageRule lim t n = voltageRule lim t' n' := by
    simp only [voltageRule, h.mvCrit, h.mvWarn, h.mv]
  rw [ruleFindings, hopen, hcurrent, himbalance, hvoltage]
  rfl

/-- A tracker ends on the same for lists that show the same. -/
theorem worst_filterMap_congr {κ : Type*} [LinearOrder κ] {key : ℤ → κ}
    (hinj : Function.Injective key) (shows? : GuardSample → Option ℤ) (a : ℤ)
    {ss ss' : List GuardSample} (h : ∀ s, s ∈ ss ↔ s ∈ ss') :
    worst key a (ss.filterMap shows?) = worst key a (ss'.filterMap shows?) :=
  worst_congr key hinj a fun b => by simp only [List.mem_filterMap, h]

/-- The tallies of lists with the same samples agree. -/
theorem tallied_agrees (lim : GuardLimits) {s s' : GuardSample} {ss ss' : List GuardSample}
    (hmem : s ∈ ss) (hmem' : s' ∈ ss') (h : ∀ s, s ∈ ss ↔ s ∈ ss') :
    (tallied lim (s.mv 0) ss).Agrees ss.length (tallied lim (s'.mv 0) ss') ss'.length := by
  have hall : ∀ {p : GuardSample → Prop}, (∀ s ∈ ss, p s) ↔ ∀ s ∈ ss', p s :=
    fun {p} => forall_congr' fun s => imp_congr_left (h s)
  -- a counter that is full for one list is full for the other
  have hhits : ∀ {count : Tally → ℕ} {p : GuardSample → Prop} [DecidablePred p],
      CountsHits (Tally.sample lim) count p → (∀ mv0, count (.start mv0) = 0) →
      (count (tallied lim (s.mv 0) ss) = ss.length
        ↔ count (tallied lim (s'.mv 0) ss') = ss'.length) := by
    intro count p _ hcount hzero
    rw [tallied, tallied, hcount.hits_eq_length_iff (hzero _), hcount.hits_eq_length_iff (hzero _)]
    exact hall
  have hid : Function.Injective (id : ℤ → ℤ) := Function.injective_id
  have hdual : Function.Injective (OrderDual.toDual : ℤ → ℤᵒᵈ) := OrderDual.toDual.injective
  constructor
  case opens => exact fun pin => (openHits_iff _ pin).trans (hall.trans (openHits_iff _ pin).symm)
  case crit => exact fun pin => (critHits_iff _ pin).trans (hall.trans (critHits_iff _ pin).symm)
  case warn => exact fun pin => (warnHits_iff _ pin).trans (hall.trans (warnHits_iff _ pin).symm)
  case ma =>
    ext1 pin
    rw [tallied, tallied, (tracks_worstMa lim pin).foldl, (tracks_worstMa lim pin).foldl]
    exact worst_filterMap_congr hid _ _ h
  case ratioCrit => exact hhits (fun t s => by rw [Tally.sample_eq]) fun _ => rfl
  case ratioWarn => exact hhits (fun t s => by rw [Tally.sample_eq]) fun _ => rfl
  case note => exact hhits (fun t s => by rw [Tally.sample_eq]) fun _ => rfl
  case pct =>
    rw [tallied, tallied, (tracks_worstPct lim).foldl, (tracks_worstPct lim).foldl]
    exact worst_filterMap_congr hdual _ _ h
  case mvCrit => exact (mvCritHits_iff _).trans (hall.trans (mvCritHits_iff _).symm)
  case mvWarn => exact (mvWarnHits_iff _).trans (hall.trans (mvWarnHits_iff _).symm)
  case mv =>
    -- each starts from a voltage of its own first sample, which is one of them all
    have hset : {x | ∃ s ∈ ss, ∃ pin, s.mv pin = x} = {x | ∃ s ∈ ss', ∃ pin, s.mv pin = x} :=
      Set.ext fun x => exists_congr fun s => and_congr_left' (h s)
    exact (worstMv_isLeast hmem 0).unique (hset ▸ worstMv_isLeast hmem' 0)

/-- **The verdict is a function of the set of the samples.** Level, findings, values and
texts do not change with the order of the samples or with samples that come again. -/
theorem guardEval_congr (lim : GuardLimits) {ss ss' : List GuardSample}
    (h : ∀ s, s ∈ ss ↔ s ∈ ss') : guardEval lim ss = guardEval lim ss' := by
  cases ss with
  | nil =>
    cases ss' with
    | nil => rfl
    | cons s' rest' => exact absurd ((h s').mpr List.mem_cons_self) List.not_mem_nil
  | cons s rest =>
    cases ss' with
    | nil => exact absurd ((h s).mp List.mem_cons_self) List.not_mem_nil
    | cons s' rest' =>
      have hagrees := tallied_agrees lim (List.mem_cons_self (a := s) (l := rest))
        (List.mem_cons_self (a := s') (l := rest')) h
      rw [guardEval, guardEval, hagrees.ruleFindings_eq lim]

/-- The samples of `mixedTiers` the other way round, the second one twice. -/
theorem guardEval_congr_mixedTiers :
    let a : GuardSample := ⟨fun _ => 12000, fun pin => if pin.val = 0 then 9600 else 8000⟩
    let b : GuardSample := ⟨fun _ => 11900, fun pin => if pin.val = 0 then 9300 else 8000⟩
    guardEval guardLimitsDefault mixedTiers = guardEval guardLimitsDefault [b, a, b] := by
  intro a b
  exact guardEval_congr guardLimitsDefault fun s => by simp [mixedTiers, a, b]; tauto

end Astral
