import AstralHwmon.Guard.ExitStatus
import AstralHwmon.Guard.RuleTable

/-!
# What the ratios can do to an alarm

Two runs of the program side by side, on command lines that may differ, seeing the
same chips and the same readings. `Sees` is what a run sees, and a run has one
outcome for it (`guardMonitor_seen`), so that two runs can be compared chip by
chip.

Between the two, the rule table differs in the imbalance rule only, where the
critical tier is fixed, the warning tier grows with its ratio, and the note tier
is no alarm. So the alarms of one run are covered by those of the other when its
warning ratio is no lower (`ruleTable_covers`), whatever the note ratios are, and
a verdict is as severe as the alarms it is raised by (`MostSevere.mono`).
-/

open CText Fold

namespace Astral

/-! ### Alarms of the rule table -/

theorem guardSeverity_injective {l l' : GuardLevel} (h : guardSeverity l = guardSeverity l') :
    l = l' := by
  cases l <;> cases l' <;> first | rfl | exact absurd h (by decide)

/-- Every alarm of the first list is matched by one of the second that is at least
as severe. -/
def Covers (levels levels' : List GuardLevel) : Prop :=
  ∀ l ∈ levels, l ≠ .note → ∃ l' ∈ levels', l' ≠ .note ∧ guardSeverity l ≤ guardSeverity l'

/-- Where alarms are covered, the verdict is no less severe. -/
theorem MostSevere.mono {levels levels' : List GuardLevel} {level level' : GuardLevel}
    (h : MostSevere levels level) (h' : MostSevere levels' level') (hc : Covers levels levels') :
    guardSeverity level ≤ guardSeverity level' := by
  rcases h.2 with rfl | ⟨hnote, hmem⟩
  · exact Nat.zero_le _
  · obtain ⟨l', hmem', hnote', hle⟩ := hc level hmem hnote
    exact hle.trans (h'.1 l' hmem' hnote')

theorem MostSevere.eq_crit_iff {levels : List GuardLevel} {level : GuardLevel}
    (h : MostSevere levels level) : level = .crit ↔ .crit ∈ levels := by
  refine ⟨fun hcrit => ?_, fun hmem => ?_⟩
  · rcases h.2 with hok | ⟨-, hmem⟩
    · exact absurd (hcrit.symm.trans hok) (by decide)
    · exact hcrit ▸ hmem
  · exact guardSeverity_crit_le_iff.mp (h.1 .crit hmem (by decide))

/-- The test of the imbalance rule, at the tier of `pct`. -/
def GuardSample.Imbalanced (gate pct : ℤ) (s : GuardSample) : Prop :=
  gate ≤ s.total ∧ s.minMa * 100 < s.maxMa * pct

instance (gate pct : ℤ) : DecidablePred (GuardSample.Imbalanced gate pct) :=
  fun _ => inferInstanceAs (Decidable (_ ∧ _))

/-- A higher percentage is missed by no more than a lower one. -/
theorem GuardSample.Imbalanced.mono {gate pct pct' : ℤ} {s : GuardSample} (hs : s.InRange)
    (hle : pct ≤ pct') (h : s.Imbalanced gate pct) : s.Imbalanced gate pct' :=
  ⟨h.1, h.2.trans_le (Int.mul_le_mul_of_nonneg_left hle hs.maxMa_nonneg)⟩

/-- The tier of the imbalance rule that fires. -/
def imbalanceTier (lim : GuardLimits) (ss : List GuardSample) : Option GuardLevel :=
  if ∀ s ∈ ss, s.Imbalanced lim.ratioGateMa lim.ratioCritPct then some .crit
  else if ∀ s ∈ ss, s.Imbalanced lim.ratioGateMa lim.ratioWarnPct then some .warn
  else if ∀ s ∈ ss, s.Imbalanced lim.ratioGateMa lim.ratioNotePct then some .note
  else none

/-- The levels of the other three rules. -/
def otherLevels (lim : GuardLimits) (ss : List GuardSample) : List GuardLevel :=
  (List.finRange 6).filterMap (fun pin =>
    firstTier [(.crit, lim.openPinMa)]
      (fun x s => lim.openGateMa ≤ s.total ∧ s.ma pin < x) ss) ++
  (List.finRange 6).filterMap (fun pin =>
    firstTier [(.crit, lim.pinCritMa), (.warn, lim.pinWarnMa)] (fun x s => x ≤ s.ma pin) ss) ++
  (firstTier [(.crit, lim.mvCrit), (.warn, lim.mvWarn)] (fun x s => s.minMv < x) ss).toList

/-- The levels of the rule table, with the imbalance rule set apart. -/
theorem mem_ruleTable_levels {lim : GuardLimits} {ss : List GuardSample} {l : GuardLevel} :
    l ∈ (ruleTable lim ss).map (fun e => e.2.2) ↔
      l ∈ otherLevels lim ss ∨ imbalanceTier lim ss = some l := by
  have htier : firstTier [(.crit, lim.ratioCritPct), (.warn, lim.ratioWarnPct),
      (.note, lim.ratioNotePct)]
      (fun x s => lim.ratioGateMa ≤ s.total ∧ s.minMa * 100 < s.maxMa * x) ss
        = imbalanceTier lim ss := by
    simp only [firstTier_cons, firstTier_nil]
    rfl
  simp only [ruleTable, otherLevels, htier, List.map_append, List.map_filterMap, Option.map_map,
    Function.comp_def, Option.map_id', ← Option.toList_map, List.mem_append, Option.mem_toList]
  tauto

/-- No rule has a tier for UNKNOWN. -/
theorem unknown_not_mem_ruleTable (lim : GuardLimits) (ss : List GuardSample) :
    .unknown ∉ (ruleTable lim ss).map (fun e => e.2.2) := by
  have htier : ∀ {tiers : List (GuardLevel × ℤ)} {test : ℤ → GuardSample → Prop}
      [∀ x, DecidablePred (test x)], GuardLevel.unknown ∉ tiers.map Prod.fst →
      firstTier tiers test ss ≠ some .unknown := by
    intro tiers test _ htiers h
    obtain ⟨tier, hfind, hlevel⟩ := Option.map_eq_some_iff.mp h
    exact htiers (List.mem_map.mpr ⟨tier, List.mem_of_find?_eq_some hfind, hlevel⟩)
  rw [mem_ruleTable_levels]
  rintro (h | h)
  · simp only [otherLevels, List.mem_append, List.mem_filterMap, Option.mem_toList] at h
    rcases h with (⟨pin, -, h⟩ | ⟨pin, -, h⟩) | h <;> exact htier (by simp) h
  · unfold imbalanceTier at h
    split at h <;> [skip; split at h <;> [skip; split at h]] <;> simp at h

/-- The limits agree but for the two ratios that can be tuned. -/
def GuardLimits.AgreeButRatios (lim lim' : GuardLimits) : Prop :=
  lim' = { lim with ratioNotePct := lim'.ratioNotePct, ratioWarnPct := lim'.ratioWarnPct }

theorem GuardLimits.Tuned.agree {lim lim' : GuardLimits} (h : lim.Tuned) (h' : lim'.Tuned) :
    lim.AgreeButRatios lim' := by
  unfold AgreeButRatios
  rw [h'.2.2, h.2.2]

section Cover

variable {lim lim' : GuardLimits} {ss : List GuardSample}

theorem GuardLimits.AgreeButRatios.otherLevels (h : lim.AgreeButRatios lim') :
    otherLevels lim' ss = otherLevels lim ss := by
  rw [h]
  rfl

/-- The critical tier of the imbalance rule is out of reach of either ratio. -/
theorem GuardLimits.AgreeButRatios.imbalanceTier_crit (h : lim.AgreeButRatios lim') :
    imbalanceTier lim' ss = some .crit ↔ imbalanceTier lim ss = some .crit := by
  have hcrit : ∀ lim : GuardLimits, imbalanceTier lim ss = some .crit ↔
      ∀ s ∈ ss, s.Imbalanced lim.ratioGateMa lim.ratioCritPct := by
    intro lim
    unfold imbalanceTier
    split
    next hall => exact ⟨fun _ => hall, fun _ => rfl⟩
    next hall => split <;> [skip; split] <;> simp [hall]
  rw [hcrit, hcrit, h]

/-- An alarm of the imbalance rule stays one, and as severe, when the warning
ratio goes up. -/
theorem GuardLimits.AgreeButRatios.imbalanceTier_covers (h : lim.AgreeButRatios lim')
    (hs : ∀ s ∈ ss, s.InRange) (hwarn : lim.ratioWarnPct ≤ lim'.ratioWarnPct) {l : GuardLevel}
    (hl : imbalanceTier lim ss = some l) (hnote : l ≠ .note) :
    ∃ l', imbalanceTier lim' ss = some l' ∧ l' ≠ .note ∧ guardSeverity l ≤ guardSeverity l' := by
  have hgate : lim'.ratioGateMa = lim.ratioGateMa := by rw [h]
  have hcrit : lim'.ratioCritPct = lim.ratioCritPct := by rw [h]
  unfold imbalanceTier at hl ⊢
  rw [hgate, hcrit]
  by_cases hall : ∀ s ∈ ss, s.Imbalanced lim.ratioGateMa lim.ratioCritPct
  · rw [if_pos hall] at hl ⊢
    exact ⟨_, rfl, GuardLevel.noConfusion, by rw [Option.some.inj hl]⟩
  · rw [if_neg hall] at hl ⊢
    by_cases hw : ∀ s ∈ ss, s.Imbalanced lim.ratioGateMa lim.ratioWarnPct
    · -- what misses the lower ratio misses the higher
      have hw' : ∀ s ∈ ss, s.Imbalanced lim.ratioGateMa lim'.ratioWarnPct :=
        fun s hmem => (hw s hmem).mono (hs s hmem) hwarn
      rw [if_pos hw] at hl
      rw [if_pos hw']
      exact ⟨_, rfl, GuardLevel.noConfusion, by rw [Option.some.inj hl]⟩
    · -- what is left is the note, or nothing
      rw [if_neg hw] at hl
      split at hl
      · exact absurd (Option.some.inj hl).symm hnote
      · exact absurd hl (by simp)

/-- **The tuning covers.** With a warning ratio no lower, every alarm is still
there, whatever became of the note ratio. -/
theorem ruleTable_covers (h : lim.AgreeButRatios lim') (hs : ∀ s ∈ ss, s.InRange)
    (hwarn : lim.ratioWarnPct ≤ lim'.ratioWarnPct) :
    Covers ((ruleTable lim ss).map fun e => e.2.2) ((ruleTable lim' ss).map fun e => e.2.2) := by
  intro l hl hnote
  rcases mem_ruleTable_levels.mp hl with hother | htier
  · exact ⟨l, mem_ruleTable_levels.mpr (Or.inl (h.otherLevels ▸ hother)), hnote, le_rfl⟩
  · obtain ⟨l', htier', hnote', hle⟩ := h.imbalanceTier_covers hs hwarn htier hnote
    exact ⟨l', mem_ruleTable_levels.mpr (Or.inr htier'), hnote', hle⟩

theorem ruleTable_crit_iff (h : lim.AgreeButRatios lim') :
    .crit ∈ (ruleTable lim' ss).map (fun e => e.2.2) ↔
      .crit ∈ (ruleTable lim ss).map (fun e => e.2.2) := by
  rw [mem_ruleTable_levels, mem_ruleTable_levels, h.otherLevels, h.imbalanceTier_crit]

end Cover

/-! ### Chip by chip -/

/-- What is read of a chip by a run: all samples admitted, at least one. -/
def ChipRun.Admitted (r : ChipRun) : Prop :=
  ∀ ss, r.samples = some ss → ss ≠ [] ∧ ∀ s ∈ ss, s.InRange

section Chip

variable {lim lim' : GuardLimits} {r : ChipRun}

theorem ChipRun.severity_mono (hr : r.Admitted) (h : lim.AgreeButRatios lim')
    (hwarn : lim.ratioWarnPct ≤ lim'.ratioWarnPct) :
    guardSeverity (r.verdict lim).level ≤ guardSeverity (r.verdict lim').level := by
  unfold ChipRun.verdict
  cases hsamples : r.samples with
  | none => exact le_rfl
  | some ss =>
    obtain ⟨hne, hs⟩ := hr ss hsamples
    have hmost := guardEval_mostSevere lim hne hs
    have hmost' := guardEval_mostSevere lim' hne hs
    exact hmost.mono hmost' (ruleTable_covers h hs hwarn)

/-- The note ratio alone changes no level. -/
theorem ChipRun.level_eq (hr : r.Admitted) (h : lim.AgreeButRatios lim')
    (h' : lim'.AgreeButRatios lim) (hwarn : lim.ratioWarnPct = lim'.ratioWarnPct) :
    (r.verdict lim).level = (r.verdict lim').level :=
  guardSeverity_injective
    (le_antisymm (severity_mono hr h hwarn.le) (severity_mono hr h' hwarn.ge))

/-- Neither ratio makes a chip critical, or keeps it from being so. -/
theorem ChipRun.crit_iff (hr : r.Admitted) (h : lim.AgreeButRatios lim') :
    (r.verdict lim').level = .crit ↔ (r.verdict lim).level = .crit := by
  unfold ChipRun.verdict
  cases hsamples : r.samples with
  | none => exact Iff.rfl
  | some ss =>
    obtain ⟨hne, hs⟩ := hr ss hsamples
    have hmost := guardEval_mostSevere lim hne hs
    have hmost' := guardEval_mostSevere lim' hne hs
    dsimp only
    rw [hmost'.eq_crit_iff, hmost.eq_crit_iff, ruleTable_crit_iff h]

/-- A chip is UNKNOWN exactly when it could not be read. -/
theorem ChipRun.unknown_iff (hr : r.Admitted) (lim : GuardLimits) :
    (r.verdict lim).level = .unknown ↔ r.samples = none := by
  unfold ChipRun.verdict
  cases hsamples : r.samples with
  | none => exact ⟨fun _ => rfl, fun _ => rfl⟩
  | some ss =>
    obtain ⟨hne, hs⟩ := hr ss hsamples
    obtain ⟨-, hlevel⟩ := guardEval_mostSevere lim hne hs
    refine ⟨fun hunknown => ?_, fun h => absurd h (by simp)⟩
    rcases hlevel with hok | ⟨-, hmem⟩
    · exact absurd (hunknown.symm.trans hok) (by decide)
    · exact absurd (hunknown ▸ hmem) (unknown_not_mem_ruleTable lim ss)

end Chip

/-! ### Two runs -/

section Unique

variable {W : Type*} {host : Host W}

/-- A chip's samples are what the machine answers: there is one run. -/
theorem SampleRun.unique {c : GuardChip} {gap : ℤ} {n : ℕ} {w w₁ w₂ : W}
    {r₁ r₂ : Option (List GuardSample)} (h₁ : SampleRun host c gap n w r₁ w₁)
    (h₂ : SampleRun host c gap n w r₂ w₂) : r₁ = r₂ ∧ w₁ = w₂ := by
  -- on the first run; the second reads the same and goes the same way
  induction h₁ generalizing r₂ w₂ with
  | done => cases h₂; exact ⟨rfl, rfl⟩
  | read hread hfilled _ ih =>
    cases h₂ with
    | read hread' hfilled' hrest' =>
      obtain ⟨hout, rfl⟩ := Prod.mk.inj (hread.symm.trans hread')
      obtain rfl := (Prod.mk.inj hout).2
      obtain rfl := Option.some.inj (hfilled.symm.trans hfilled')
      obtain ⟨rfl, rfl⟩ := ih hrest'
      exact ⟨rfl, rfl⟩
    | failed hread' hret =>
      obtain ⟨hout, -⟩ := Prod.mk.inj (hread.symm.trans hread')
      exact absurd (Prod.mk.inj hout).1.symm hret
  | failed hread hret =>
    cases h₂ with
    | read hread' =>
      obtain ⟨hout, -⟩ := Prod.mk.inj (hread.symm.trans hread')
      exact absurd (Prod.mk.inj hout).1 hret
    | failed hread' => exact ⟨rfl, (Prod.mk.inj (hread.symm.trans hread')).2⟩

theorem ChipRuns.unique {o : Options} {cs : List GuardChip} {w w₁ w₂ : W}
    {runs₁ runs₂ : List ChipRun} (h₁ : ChipRuns host o cs w runs₁ w₁)
    (h₂ : ChipRuns host o cs w runs₂ w₂) : runs₁ = runs₂ ∧ w₁ = w₂ := by
  induction h₁ generalizing runs₂ w₂ with
  | nil => cases h₂; exact ⟨rfl, rfl⟩
  | cons hrun _ ih =>
    cases h₂ with
    | cons hrun' hrest' =>
      obtain ⟨rfl, rfl⟩ := hrun.unique hrun'
      obtain ⟨rfl, rfl⟩ := ih hrest'
      exact ⟨rfl, rfl⟩

end Unique

section Seen

variable {W : Type*} (host : Host W)

/-- What a run sees: nothing, if the class directory cannot be read; else the
chips found, each with what was read of it. -/
def Sees (o : Options) (w : W) : Option (List ChipRun) → Prop
  | none => (guardFindChips host o.sysfsRoot guardMaxChips w).1 = none
  | some runs => ∃ chips w₁ w₂, guardFindChips host o.sysfsRoot guardMaxChips w = (some chips, w₁) ∧
      ChipRuns host o chips w₁ runs w₂

/-- The status of a run, from what it has seen. -/
def seenStatus (lim : GuardLimits) : Option (List ChipRun) → GuardLevel
  | none => .unknown
  | some [] => .unknown
  | some (r :: runs) =>
    worst guardSeverity .ok ((r :: runs).map fun r => (r.verdict lim).level)

variable {host}

theorem exists_sees (host : Host W) (o : Options) (w : W) : ∃ seen, Sees host o w seen := by
  cases hfind : guardFindChips host o.sysfsRoot guardMaxChips w with
  | mk found w₁ =>
    cases found with
    | none => exact ⟨none, by rw [Sees, hfind]⟩
    | some chips =>
      obtain ⟨runs, w₂, -, hruns, -⟩ := chipLoop_runs host o chips true .ok [] w₁
      exact ⟨some runs, chips, w₁, w₂, hfind, hruns⟩

/-- A run ends with the status of what it has seen. -/
theorem guardMonitor_seen {o : Options} {w : W} {seen : Option (List ChipRun)}
    (h : Sees host o w seen) :
    ∃ out w', guardMonitor host o w = some (out, w') ∧ out.status = seenStatus o.lim seen := by
  unfold guardMonitor
  cases hfind : guardFindChips host o.sysfsRoot guardMaxChips w with
  | mk found w₁ =>
    cases seen with
    | none =>
      obtain rfl : found = none := by rw [Sees, hfind] at h; exact h
      exact ⟨_, _, rfl, rfl⟩
    | some runs =>
      obtain ⟨chips, w₁', w₂, hfind', hruns⟩ := h
      -- the chips found are those seen, and so are their samples
      obtain ⟨rfl, rfl⟩ := Prod.mk.inj (hfind.symm.trans hfind')
      cases chips with
      | nil => cases hruns; exact ⟨_, _, rfl, rfl⟩
      | cons c cs =>
        obtain ⟨runs', w', text, hruns', hloop, -⟩ := chipLoop_runs host o (c :: cs) true .ok [] w₁
        obtain ⟨rfl, -⟩ := hruns.unique hruns'
        dsimp only
        rw [hloop]
        cases hruns
        exact ⟨_, _, rfl, rfl⟩

theorem Sees.admitted {o : Options} {w : W} {seen : Option (List ChipRun)}
    (h : Sees host o w seen) {r : ChipRun} (hr : r ∈ seen.getD []) : r.Admitted := by
  cases seen with
  | none => exact absurd hr List.not_mem_nil
  | some runs =>
    obtain ⟨chips, w₁, w₂, -, hruns⟩ := h
    intro ss hss
    obtain ⟨hlen, hs⟩ := hruns.read.2 r hr ss hss
    have hpos := o.samples.property.1
    exact ⟨List.ne_nil_of_length_pos (by omega), hs⟩

/-- Only the root, the number of samples and the interval matter to what is seen. -/
theorem Sees.congr {o o' : Options} {w : W} {seen : Option (List ChipRun)}
    (h : Sees host o w seen) (hroot : o.sysfsRoot = o'.sysfsRoot)
    (hsamples : o.samples = o'.samples) (hinterval : o.interval = o'.interval) :
    Sees host o' w seen := by
  cases seen with
  | none => rw [Sees, ← hroot]; exact h
  | some runs =>
    obtain ⟨chips, w₁, w₂, hfind, hruns⟩ := h
    refine ⟨chips, w₁, w₂, hroot ▸ hfind, ?_⟩
    have hgap : sampleGap o = sampleGap o' := by unfold sampleGap; rw [hinterval]
    clear hfind
    induction hruns with
    | nil w => exact .nil w
    | cons hrun _ ih => exact .cons (by rw [← hgap, ← hsamples]; exact hrun) ih

end Seen

/-- The settings that give a number to one of some options. -/
def Setting.gives (tuned : List NumberOption) : Setting → Bool
  | .number n _ _ _ => n ∈ tuned
  | _ => false

/-- Two command lines that are the same settings in the same order, once those of
some options are left out. -/
def DifferOnlyIn (tuned : List NumberOption) (argv argv' : List CStr) : Prop :=
  ∃ settings settings' : List Setting,
    argv.tail = settings.flatMap Setting.tokens ∧ argv'.tail = settings'.flatMap Setting.tokens ∧
    settings.filter (! Setting.gives tuned ·) = settings'.filter (! Setting.gives tuned ·)

theorem lastNumber_filter {tuned : List NumberOption} {n : NumberOption} (hn : n ∉ tuned)
    (settings : List Setting) :
    lastNumber (settings.filter (! Setting.gives tuned ·)) n = lastNumber settings n := by
  have hwrite : ∀ s : Setting, s.gives tuned = true → s.number? n = none := by
    intro s hs
    cases s with
    | number m => exact if_neg fun h => hn (by rw [← h]; exact of_decide_eq_true hs)
    | _ => rfl
  rw [lastNumber, List.filterMap_filter, lastNumber]
  congr 1
  refine List.filterMap_congr fun s _ => ?_
  cases hs : s.gives tuned with
  | true => rw [hwrite s hs]; rfl
  | false => rfl

/-- An option that was not tuned has the same number on both. -/
theorem DifferOnlyIn.number_eq {tuned : List NumberOption} {version : CStr}
    {argv argv' : List CStr} (h : DifferOnlyIn tuned argv argv') {o o' : Options}
    (ho : optionLoop version argv.tail .default = .run o)
    (ho' : optionLoop version argv'.tail .default = .run o') {n : NumberOption} (hn : n ∉ tuned) :
    o.number n = o'.number n := by
  obtain ⟨settings, settings', hargs, hargs', hfilter⟩ := h
  -- the loop folds the settings of either line
  have hfold : ∀ {args : List CStr} {settings : List Setting} {o : Options},
      args = settings.flatMap Setting.tokens → optionLoop version args .default = .run o →
      o = settings.foldl Options.set .default := by
    intro args settings o hargs ho
    have hloop := optionLoop_settings version settings [] .default
    rw [List.append_nil, ← hargs, ho] at hloop
    exact Parsed.run.inj hloop
  obtain rfl := hfold hargs ho
  obtain rfl := hfold hargs' ho'
  rw [(reflects_foldl settings).number, (reflects_foldl settings').number,
    ← lastNumber_filter hn settings, ← lastNumber_filter hn settings', hfilter]

theorem guardMain_of_run {version : CStr} {argv : List CStr} {o : Options}
    (ho : optionLoop version argv.tail .default = .run o) {W : Type*} (host : Host W) (w : W) :
    guardMain version host argv w = guardMonitor host o w := by
  rw [guardMain, ho]

theorem seenStatus_congr {lim lim' : GuardLimits} {seen : Option (List ChipRun)}
    (h : ∀ r ∈ seen.getD [], (r.verdict lim).level = (r.verdict lim').level) :
    seenStatus lim seen = seenStatus lim' seen := by
  cases seen with
  | none => rfl
  | some runs =>
    cases runs with
    | nil => rfl
    | cons r runs =>
      change ∀ r' ∈ r :: runs, _ at h
      rw [seenStatus, seenStatus, List.map_congr_left h]

/-- The worst of some levels is critical when one of them is. -/
theorem worst_eq_crit_iff (levels : List GuardLevel) :
    worst guardSeverity .ok levels = .crit ↔ .crit ∈ levels := by
  refine ⟨fun h => ?_, fun h => guardSeverity_crit_le_iff.mp (le_worst guardSeverity h .ok)⟩
  rcases worst_mem guardSeverity .ok levels with hok | hmem
  · exact absurd (h.symm.trans hok) (by decide)
  · exact h ▸ hmem

/-- A run is critical when a chip it has seen is. -/
theorem seenStatus_crit_iff {lim : GuardLimits} {seen : Option (List ChipRun)} :
    seenStatus lim seen = .crit ↔ ∃ r ∈ seen.getD [], (r.verdict lim).level = .crit := by
  cases seen with
  | none => simp [seenStatus]
  | some runs =>
    cases runs with
    | nil => simp [seenStatus]
    | cons r runs => rw [seenStatus, worst_eq_crit_iff, List.mem_map]; rfl

/-- **The ratios cannot hide an alarm.** Take any two accepted command lines, and
runs that see the same chips and the same readings. Command lines that differ in
the note ratio alone end with the same status. Whatever the ratios, one run ends
with 2 exactly when the other does, and the same chips are UNKNOWN. And where the
warning ratio is no lower, no chip's level is less severe. -/
theorem guardMain_tuning {version : CStr} {argv argv' : List CStr} {o o' : Options}
    (ho : optionLoop version argv.tail .default = .run o)
    (ho' : optionLoop version argv'.tail .default = .run o')
    {W W' : Type*} {host : Host W} {host' : Host W'} {w : W} {w' : W'}
    {seen : Option (List ChipRun)} (hsees : Sees host o w seen) (hsees' : Sees host' o' w' seen) :
    ∃ out w₁ out' w₁', guardMain version host argv w = some (out, w₁) ∧
      guardMain version host' argv' w' = some (out', w₁') ∧
      (DifferOnlyIn [.noteRatio] argv argv' → out.exitCode = out'.exitCode) ∧
      (out.exitCode = 2 ↔ out'.exitCode = 2) ∧
      (∀ r ∈ seen.getD [],
        ((r.verdict o.lim).level = .unknown ↔ (r.verdict o'.lim).level = .unknown)) ∧
      (o.lim.ratioWarnPct ≤ o'.lim.ratioWarnPct → ∀ r ∈ seen.getD [],
        guardSeverity (r.verdict o.lim).level ≤ guardSeverity (r.verdict o'.lim).level) := by
  obtain ⟨out, w₁, hrun, hstatus⟩ := guardMonitor_seen hsees
  obtain ⟨out', w₁', hrun', hstatus'⟩ := guardMonitor_seen hsees'
  have hagree := o.lim_tuned.agree o'.lim_tuned
  have hagree' := o'.lim_tuned.agree o.lim_tuned
  refine ⟨out, w₁, out', w₁', by rw [guardMain_of_run ho, hrun],
    by rw [guardMain_of_run ho', hrun'], fun hdiffer => ?_, ?_, fun r hr => ?_,
    fun hwarn r hr => ?_⟩
  -- the note ratio alone: it is advisory
  · have hwarn : o.lim.ratioWarnPct = o'.lim.ratioWarnPct :=
      hdiffer.number_eq (n := .warnRatio) ho ho' (by decide)
    rw [Outcome.exitCode, Outcome.exitCode, hstatus, hstatus', seenStatus_congr fun r hr =>
      ChipRun.level_eq (hsees.admitted hr) hagree hagree' hwarn]
  -- CRITICAL is decided by limits that no option sets
  · rw [Outcome.exitCode, Outcome.exitCode, GuardLevel.code_eq_two_iff,
      GuardLevel.code_eq_two_iff, hstatus, hstatus', seenStatus_crit_iff, seenStatus_crit_iff]
    exact exists_congr fun r => and_congr_right fun hr =>
      (ChipRun.crit_iff (hsees.admitted hr) hagree).symm
  · rw [ChipRun.unknown_iff (hsees.admitted hr), ChipRun.unknown_iff (hsees.admitted hr)]
  · exact ChipRun.severity_mono (hsees.admitted hr) hagree hwarn

/-- A machine with one chip: pin 1 carries 5.8 A and the others 8 A, below the
note ratio and above the warning ratio. -/
def unevenPins : Host Unit where
  readDir _ w := (some ["hwmon3".toList], w)
  readFile path w :=
    (some <|
      if "/name".toList <:+ path then "astral12vhpwr\n".toList
      else if "/curr1_input".toList <:+ path then "5800\n".toList
      else if "/curr".toList <:+: path then "8000\n".toList
      else "12000\n".toList, w)
  nanosleep _ w := w

/-- Silencing the note leaves the exit status alone. -/
theorem guardMain_tuning_unevenPins : ∃ out w₁ out' w₁',
    guardMain "1".toList unevenPins ["astral-guard".toList] () = some (out, w₁) ∧
      guardMain "1".toList unevenPins
        ["astral-guard".toList, "--note-ratio".toList, "1".toList] () = some (out', w₁') ∧
      out.exitCode = out'.exitCode := by
  let one : Ranged 1 100 := ⟨1, by decide⟩
  have hparse : parseRanged "1".toList 1 100 = some one := by decide +kernel
  have hden : Denotes "1".toList one :=
    (parseRanged_eq_some_iff (by decide) (by decide)).mp hparse
  let note : Setting := .number .noteRatio "1".toList one hden
  have ho : optionLoop "1".toList (List.tail ["astral-guard".toList]) .default = .run .default :=
    rfl
  have ho' : optionLoop "1".toList
      (List.tail ["astral-guard".toList, "--note-ratio".toList, "1".toList]) .default
      = .run (Options.default.setNoteRatio one) :=
    optionLoop_settings "1".toList [note] [] .default
  -- the note ratio has no part in what is read
  obtain ⟨seen, hsees⟩ := exists_sees unevenPins .default ()
  have hsees' : Sees unevenPins (Options.default.setNoteRatio one) () seen :=
    hsees.congr rfl rfl rfl
  obtain ⟨out, w₁, out', w₁', hrun, hrun', hnote, -⟩ :=
    guardMain_tuning ho ho' hsees hsees'
  exact ⟨out, w₁, out', w₁', hrun, hrun', hnote ⟨[], [note], rfl, rfl, rfl⟩⟩

end Astral
