import AstralHwmon.Guard.CommandLine

/-!
# The exit status over a whole run

What the exit status of astral-guard means, for every command line and every
host. The statement is over two relations that name no function of the program:

* `Scans args rest` — the arguments up to `rest` are options taken as they
  should be. Parsing ends at an informational option, at something that is
  refused, or at the end; every command line is one of the three
  (`scans_trichotomy`).
* `ChipRuns` — one run over the chips found: each is either sampled in full,
  every slot of every sample set, or given up at a read that failed.

The option loop follows `Scans` (`optionLoop_accepted`, `optionLoop_informational`,
`optionLoop_rejected`), the loops over samples and chips follow `ChipRuns`
(`sampleLoop_run`, `chipLoop_runs`), and `guardMain_exitStatus` puts them together.
-/

open CText Fold

namespace Astral

/-! ### Command lines -/

/-- The options that take a number, and its range. -/
def numberOptions : List (CStr × ℤ × ℤ) :=
  [("--samples".toList, 1, guardMaxSamples), ("--interval".toList, 0, guardMaxIntervalMs),
    ("--warn-ratio".toList, 1, 100), ("--note-ratio".toList, 1, 100)]

/-- An option as it should be given, with its value. -/
inductive AcceptedOption : List CStr → Prop
  | json : AcceptedOption ["--json".toList]
  | quiet : AcceptedOption ["--quiet".toList]
  | sysfsRoot (root : CStr) : AcceptedOption ["--sysfs-root".toList, root]
  | number {a : CStr} {lo hi : ℤ} (h : (a, lo, hi) ∈ numberOptions) {value : CStr}
      (hv : ∃ v, DenotesIn lo hi value v) : AcceptedOption [a, value]

/-- Parsing comes to `rest` by way of accepted options only. -/
inductive Scans : List CStr → List CStr → Prop
  | here (args : List CStr) : Scans args args
  | next {option args rest : List CStr} :
      AcceptedOption option → Scans args rest → Scans (option ++ args) rest

/-- An argument that starts no accepted option and is not informational: an
unknown option, or one whose value is missing, no number or out of range. -/
def Rejected (rest : List CStr) : Prop :=
  ∃ a more, rest = a :: more ∧ ¬ Informational a ∧
    ¬ ∃ option tail, AcceptedOption option ∧ a :: more = option ++ tail

theorem AcceptedOption.length_pos {option : List CStr} (h : AcceptedOption option) :
    0 < option.length := by
  cases h <;> exact Nat.zero_lt_succ _

/-- Every command line is accepted to its end, or up to an informational option,
or up to something that is refused. -/
theorem scans_trichotomy (args : List CStr) :
    Scans args [] ∨ (∃ a more, Scans args (a :: more) ∧ Informational a) ∨
      ∃ rest, Scans args rest ∧ Rejected rest := by
  -- on the length: an accepted option is one argument or two
  induction hn : args.length using Nat.strong_induction_on generalizing args with
  | _ n ih =>
    cases args with
    | nil => exact Or.inl (.here [])
    | cons a more =>
      by_cases hinfo : Informational a
      · exact Or.inr (Or.inl ⟨a, more, .here _, hinfo⟩)
      by_cases hopt : ∃ option tail, AcceptedOption option ∧ a :: more = option ++ tail
      · obtain ⟨option, tail, hacc, heq⟩ := hopt
        have hshort : tail.length < n := by
          have hlen := congrArg List.length heq
          rw [List.length_append, hn] at hlen
          have := hacc.length_pos
          omega
        rw [heq]
        rcases ih _ hshort tail rfl with h | ⟨b, bs, h, hb⟩ | ⟨rest, h, hr⟩
        · exact Or.inl (.next hacc h)
        · exact Or.inr (Or.inl ⟨b, bs, .next hacc h, hb⟩)
        · exact Or.inr (Or.inr ⟨rest, .next hacc h, hr⟩)
      · exact Or.inr (Or.inr ⟨_, .here _, a, more, rfl, hinfo, hopt⟩)

/-! ### The option loop -/

/-- An accepted option is a setting. -/
theorem AcceptedOption.exists_setting {option : List CStr} (h : AcceptedOption option) :
    ∃ s : Setting, s.tokens = option := by
  cases h with
  | json => exact ⟨.json, rfl⟩
  | quiet => exact ⟨.quiet, rfl⟩
  | sysfsRoot root => exact ⟨.sysfsRoot root, rfl⟩
  | number hmem hv =>
    obtain ⟨v, hlo, hhi, hden⟩ := hv
    simp only [numberOptions, List.mem_cons, Prod.mk.injEq, List.not_mem_nil, or_false] at hmem
    rcases hmem with ⟨rfl, rfl, rfl⟩ | ⟨rfl, rfl, rfl⟩ | ⟨rfl, rfl, rfl⟩ | ⟨rfl, rfl, rfl⟩
    · exact ⟨.number .samples _ ⟨v, hlo, hhi⟩ hden, rfl⟩
    · exact ⟨.number .interval _ ⟨v, hlo, hhi⟩ hden, rfl⟩
    · exact ⟨.number .warnRatio _ ⟨v, hlo, hhi⟩ hden, rfl⟩
    · exact ⟨.number .noteRatio _ ⟨v, hlo, hhi⟩ hden, rfl⟩

/-- A setting is an accepted option. -/
theorem Setting.accepted (s : Setting) : AcceptedOption s.tokens := by
  cases s with
  | json => exact .json
  | quiet => exact .quiet
  | sysfsRoot root => exact .sysfsRoot root
  | number n text v hden =>
    have hmem : (n.name, n.lo, n.hi) ∈ numberOptions := by cases n <;> decide
    exact .number hmem ⟨v, v.property.1, v.property.2, hden⟩

/-- What is rejected is refused for one of the three reasons. -/
theorem Rejected.refused {rest : List CStr} (h : Rejected rest) : Refused rest := by
  obtain ⟨a, more, rfl, hinfo, hopt⟩ := h
  rcases setting_or_ending (a :: more) with ⟨s, tail, hs⟩ | hnil | ⟨b, bs, hcons, hb⟩ | hrefused
  · exact absurd ⟨s.tokens, tail, s.accepted, hs⟩ hopt
  · exact absurd hnil (List.cons_ne_nil _ _)
  · exact absurd ((List.cons.inj hcons).1 ▸ hb) hinfo
  · exact hrefused

/-- An accepted option is consumed with its value. -/
theorem optionLoop_accepted (version : CStr) {option : List CStr} (h : AcceptedOption option)
    (args : List CStr) (o : Options) :
    ∃ o', optionLoop version (option ++ args) o = optionLoop version args o' := by
  obtain ⟨s, rfl⟩ := h.exists_setting
  exact ⟨_, optionLoop_setting version s args o⟩

theorem optionLoop_scans (version : CStr) {args rest : List CStr} (h : Scans args rest)
    (o : Options) : ∃ o', optionLoop version args o = optionLoop version rest o' := by
  induction h generalizing o with
  | here args => exact ⟨o, rfl⟩
  | next hacc _ ih =>
    obtain ⟨o', h'⟩ := optionLoop_accepted version hacc _ o
    obtain ⟨o'', h''⟩ := ih o'
    exact ⟨o'', h'.trans h''⟩

/-- Whatever is rejected ends the program as UNKNOWN, with a complaint. -/
theorem optionLoop_rejected (version : CStr) {rest : List CStr} (h : Rejected rest)
    (o : Options) :
    ∃ text, text ≠ [] ∧ optionLoop version rest o = .exit ⟨.unknown, [], text⟩ :=
  optionLoop_refused version h.refused o

/-! ### Runs over the chips -/

variable {W : Type*} (host : Host W)

/-- Taking `n` more samples of a chip, from one world to another: all of them
read in full, or none because a read failed. -/
inductive SampleRun (c : GuardChip) (gap : ℤ) : ℕ → W → Option (List GuardSample) → W → Prop
  | done (w : W) : SampleRun c gap 0 w (some []) w
  | read {n : ℕ} {w w' w'' : W} {raw : RawSample} {s : GuardSample}
      {r : Option (List GuardSample)} (hread : guardReadSample host c .unset w = ((0, raw), w'))
      (hfilled : raw.filled = some s)
      (hrest : SampleRun c gap n (if 0 < n then nap host gap w' else w') r w'') :
      SampleRun c gap (n + 1) w (r.map (s :: ·)) w''
  | failed {n : ℕ} {w w' : W} {ret : ℤ} {raw : RawSample}
      (hread : guardReadSample host c .unset w = ((ret, raw), w')) (hret : ret ≠ 0) :
      SampleRun c gap (n + 1) w none w'

/-- A chip and what was read from it. -/
structure ChipRun where
  chip : GuardChip
  samples : Option (List GuardSample)

/-- The verdict on a chip: UNKNOWN unless every sample was read. -/
def ChipRun.verdict (lim : GuardLimits) (r : ChipRun) : GuardVerdict :=
  match r.samples with
  | none => unreadableVerdict r.chip
  | some ss => guardEval lim ss

/-- One run over the chips found. -/
inductive ChipRuns (o : Options) : List GuardChip → W → List ChipRun → W → Prop
  | nil (w : W) : ChipRuns o [] w [] w
  | cons {c : GuardChip} {cs : List GuardChip} {w w' w'' : W} {r : Option (List GuardSample)}
      {runs : List ChipRun}
      (hrun : SampleRun host c (sampleGap o c) o.samples.val.toNat w r w')
      (hrest : ChipRuns o cs w' runs w'') : ChipRuns o (c :: cs) w (⟨c, r⟩ :: runs) w''

variable {host}

/-- A chip that was read was read as often as asked, every time in full. -/
theorem SampleRun.length_eq {c : GuardChip} {gap : ℤ} {n : ℕ} {w w' : W}
    {r : Option (List GuardSample)} (h : SampleRun host c gap n w r w') :
    ∀ ss, r = some ss → ss.length = n ∧ ∀ s ∈ ss, s.InRange := by
  induction h with
  | done => rintro ss ⟨⟩; exact ⟨rfl, by simp⟩
  | read _ hfilled _ ih =>
    intro ss hss
    obtain ⟨rest, hrest, rfl⟩ := Option.map_eq_some_iff.mp hss
    obtain ⟨hlen, hrange⟩ := ih rest hrest
    refine ⟨by rw [List.length_cons, hlen], fun s hs => ?_⟩
    rcases List.mem_cons.mp hs with rfl | hs
    · exact RawSample.filled_inRange hfilled
    · exact hrange s hs
  | failed => intro ss hss; exact absurd hss (by simp)

/-- The sampling loop runs as `SampleRun` says. Samples it hands on are filled,
and it hands them on only when none failed. -/
theorem sampleLoop_run (host : Host W) (c : GuardChip) (gap : ℤ) (n : ℕ) {raws : List RawSample}
    {ss : List GuardSample} (hraws : raws.mapM RawSample.filled = some ss) (w : W) :
    ∃ r, SampleRun host c gap n w r (sampleLoop host c gap n raws w).2 ∧
      match r with
      | none => (sampleLoop host c gap n raws w).1.1 = false
      | some rest => (sampleLoop host c gap n raws w).1.1 = true ∧
          (sampleLoop host c gap n raws w).1.2.mapM RawSample.filled = some (ss ++ rest) := by
  -- on the samples still to take, with those read so far
  induction n generalizing raws ss w with
  | zero => exact ⟨_, .done w, rfl, by rw [List.append_nil]; exact hraws⟩
  | succ n ih =>
    rw [sampleLoop]
    cases hread : guardReadSample host c .unset w with
    | mk out w' =>
      obtain ⟨ret, raw⟩ := out
      dsimp only
      by_cases hret : ret = 0
      · subst hret
        -- a read that returns 0 leaves no slot unset
        obtain ⟨s, hs, -⟩ := guardReadSample_filled (congrArg (fun x => x.1.1) hread)
        rw [hread] at hs
        rw [if_neg (not_not.mpr rfl)]
        have hraws' : (raws ++ [raw]).mapM RawSample.filled = some (ss ++ [s]) := by
          rw [List.mapM_append, hraws, List.mapM_cons, hs]
          rfl
        obtain ⟨r, hrun, hr⟩ := ih hraws' (if 0 < n then nap host gap w' else w')
        refine ⟨_, .read hread hs hrun, ?_⟩
        cases r with
        | none => exact hr
        | some rest => exact ⟨hr.1, by rw [hr.2, List.append_assoc]; rfl⟩
      · rw [if_pos hret]
        exact ⟨none, .failed hread hret, rfl⟩

/-- A chip always gets a verdict. -/
theorem checkChip_run (host : Host W) (o : Options) (c : GuardChip) (w : W) :
    ∃ r w', SampleRun host c (sampleGap o c) o.samples.val.toNat w r w' ∧
      checkChip host o c w = (some ((⟨c, r⟩ : ChipRun).verdict o.lim), w') := by
  have hnil : ([] : List RawSample).mapM RawSample.filled = some [] := rfl
  obtain ⟨r, hrun, hr⟩ := sampleLoop_run host c (sampleGap o c) o.samples.val.toNat hnil w
  refine ⟨r, _, hrun, ?_⟩
  rw [checkChip]
  cases r with
  | none => simp only [hr, ChipRun.verdict, Bool.false_eq_true, if_false]
  | some ss => simp only [hr.1, hr.2, ChipRun.verdict, if_true, List.nil_append, Option.map_some]

/-- The loop over the chips runs as `ChipRuns` says: it ends on the worst level
of the start and the verdicts, and without `--json` it has printed their reports. -/
theorem chipLoop_runs (host : Host W) (o : Options) (cs : List GuardChip) (first : Bool)
    (level : GuardLevel) (text : CStr) (w : W) :
    ∃ runs w' text', ChipRuns host o cs w runs w' ∧
      chipLoop host o cs first level text w
        = some ((worst guardSeverity level (runs.map fun r => (r.verdict o.lim).level), text'),
            w') ∧
      (o.json = false →
        text' = text ++ runs.flatMap fun r => chipReport o r.chip (r.verdict o.lim) true) := by
  induction cs generalizing first level text w with
  | nil => exact ⟨[], w, text, .nil w, rfl, fun _ => by rw [List.flatMap_nil, List.append_nil]⟩
  | cons c cs ih =>
    obtain ⟨r, w', hrun, hcheck⟩ := checkChip_run host o c w
    obtain ⟨runs, w'', text', hruns, hloop, htext⟩ := ih false
      (worse guardSeverity level ((⟨c, r⟩ : ChipRun).verdict o.lim).level)
      (text ++ chipReport o c ((⟨c, r⟩ : ChipRun).verdict o.lim) first) w'
    refine ⟨_, w'', text', .cons hrun hruns, ?_, fun hjson => ?_⟩
    · rw [chipLoop, hcheck]
      exact hloop
    · -- `first` only matters to the JSON report
      have hfirst : chipReport o c ((⟨c, r⟩ : ChipRun).verdict o.lim) first
          = chipReport o c ((⟨c, r⟩ : ChipRun).verdict o.lim) true := by
        simp only [chipReport, hjson, Bool.false_eq_true, if_false]
      rw [htext hjson, List.flatMap_cons, hfirst, List.append_assoc]

theorem ChipRuns.ne_nil {o : Options} {c : GuardChip} {cs : List GuardChip} {w w' : W}
    {runs : List ChipRun} (h : ChipRuns host o (c :: cs) w runs w') : runs ≠ [] := by
  cases h
  exact List.cons_ne_nil _ _

theorem ChipRun.level_ne_note (lim : GuardLimits) (r : ChipRun) :
    (r.verdict lim).level ≠ .note := by
  unfold ChipRun.verdict
  split
  · exact GuardLevel.noConfusion
  · exact guardEval_level_ne_note lim _

/-- The chips a run visits are the chips found, and those that were read were
read in full. -/
theorem ChipRuns.read {o : Options} {cs : List GuardChip} {w w' : W} {runs : List ChipRun}
    (h : ChipRuns host o cs w runs w') :
    runs.map ChipRun.chip = cs ∧ ∀ r ∈ runs, ∀ ss, r.samples = some ss →
      (ss.length : ℤ) = o.samples ∧ ∀ s ∈ ss, s.InRange := by
  induction h with
  | nil => exact ⟨rfl, by simp⟩
  | cons hrun _ ih =>
    refine ⟨by rw [List.map_cons, ih.1], fun r hr ss hss => ?_⟩
    rcases List.mem_cons.mp hr with rfl | hr
    · obtain ⟨hlen, hrange⟩ := hrun.length_eq ss hss
      have hpos := o.samples.property.1
      exact ⟨by omega, hrange⟩
    · exact ih.2 r hr ss hss

/-! ### The exit status -/

/-- What the outcome says about a run over the chips found. -/
structure Tells (o : Options) (runs : List ChipRun) (out : Outcome) : Prop where
  /-- The exit code is that of the worst chip: OK < WARNING < UNKNOWN < CRITICAL. -/
  worst : ∃ r ∈ runs, out.exitCode = (r.verdict o.lim).level.code ∧
    (r.verdict o.lim).level ≠ .note ∧
    ∀ r' ∈ runs, guardSeverity (r'.verdict o.lim).level ≤ guardSeverity (r.verdict o.lim).level
  /-- An exit code of 0 vouches for every chip. -/
  ok : out.exitCode = 0 ↔ ∀ r ∈ runs, ∃ ss, r.samples = some ss ∧ (guardEval o.lim ss).level = .ok
  /-- No other chip can mask a critical one. -/
  crit : out.exitCode = 2 ↔ ∃ r ∈ runs, (r.verdict o.lim).level = .crit
  /-- With `--quiet`, silence is an exit code of 0 and nothing else. -/
  quiet : o.quiet = true → o.json = false → (out.stdout = [] ↔ out.exitCode = 0)

theorem GuardLevel.code_eq_zero_iff {l : GuardLevel} : l.code = 0 ↔ l = .ok := by
  cases l <;> decide

theorem GuardLevel.code_eq_two_iff {l : GuardLevel} : l.code = 2 ↔ l = .crit := by
  cases l <;> decide

theorem ChipRun.ok_iff (lim : GuardLimits) (r : ChipRun) : (r.verdict lim).level = .ok ↔
    ∃ ss, r.samples = some ss ∧ (guardEval lim ss).level = .ok := by
  unfold ChipRun.verdict
  cases r.samples with
  | none => simp [unreadableVerdict]
  | some ss => simp

/-- A chip that is not OK is always reported. -/
theorem chipReport_ne_nil (o : Options) (c : GuardChip) {v : GuardVerdict} (first : Bool)
    (h : v.level ≠ .ok) : chipReport o c v first ≠ [] := by
  unfold chipReport
  by_cases hjson : o.json = true
  · rw [if_pos hjson]
    exact guardReportJson_ne_nil c v o.lim first
  · rw [if_neg hjson, if_pos (by simp [h])]
    exact guardReportText_ne_nil c v

/-- Quietly, a chip is reported exactly when it is not OK. -/
theorem chipReport_eq_nil_iff {o : Options} (hquiet : o.quiet = true) (hjson : o.json = false)
    (c : GuardChip) (v : GuardVerdict) (first : Bool) :
    chipReport o c v first = [] ↔ v.level = .ok := by
  refine ⟨fun hnil => ?_, fun hok => ?_⟩
  · by_contra h
    exact chipReport_ne_nil o c first h hnil
  · simp [chipReport, hjson, hquiet, hok]

theorem guardSeverity_le_ok_iff {l : GuardLevel} :
    guardSeverity l ≤ guardSeverity .ok ↔ l = .ok := by
  cases l <;> decide

theorem guardSeverity_crit_le_iff {l : GuardLevel} :
    guardSeverity .crit ≤ guardSeverity l ↔ l = .crit := by
  cases l <;> decide

/-- The worst of a non-empty run tells what it should. -/
theorem tells_worst {o : Options} {runs : List ChipRun} (hne : runs ≠ []) {out : Outcome}
    (hstatus : out.status = worst guardSeverity .ok (runs.map fun r => (r.verdict o.lim).level))
    (hquiet : o.quiet = true → o.json = false →
      out.stdout = runs.flatMap fun r => chipReport o r.chip (r.verdict o.lim) true) :
    Tells o runs out := by
  -- the fold by severity bounds every verdict, and is one of them
  have hle : ∀ r ∈ runs, guardSeverity (r.verdict o.lim).level ≤ guardSeverity out.status := by
    intro r hr
    have hmem : (r.verdict o.lim).level ∈ runs.map fun r => (r.verdict o.lim).level :=
      List.mem_map.mpr ⟨r, hr, rfl⟩
    rw [hstatus]
    exact le_worst guardSeverity hmem .ok
  have hworst : ∃ r ∈ runs, (r.verdict o.lim).level = out.status := by
    rcases worst_mem guardSeverity .ok (runs.map fun r => (r.verdict o.lim).level) with hok | hmem
    · -- the start was never displaced, so the first chip is no worse than it
      obtain ⟨r, hr⟩ := List.exists_mem_of_ne_nil runs hne
      have hlevel := hle r hr
      rw [hstatus, hok] at hlevel
      exact ⟨r, hr, by rw [hstatus, hok]; exact guardSeverity_le_ok_iff.mp hlevel⟩
    · obtain ⟨r, hr, heq⟩ := List.mem_map.mp hmem
      exact ⟨r, hr, by rw [hstatus, ← heq]⟩
  obtain ⟨r₀, hr₀, heq₀⟩ := hworst
  have hallok : out.status = .ok ↔ ∀ r ∈ runs, (r.verdict o.lim).level = .ok := by
    refine ⟨fun h r hr => ?_, fun h => heq₀.symm.trans (h r₀ hr₀)⟩
    have := hle r hr
    rw [h] at this
    exact guardSeverity_le_ok_iff.mp this
  refine ⟨⟨r₀, hr₀, by rw [Outcome.exitCode, heq₀], r₀.level_ne_note o.lim, heq₀ ▸ hle⟩, ?_, ?_,
    fun hq hj => ?_⟩
  · rw [Outcome.exitCode, GuardLevel.code_eq_zero_iff, hallok]
    exact forall₂_congr fun r _ => r.ok_iff o.lim
  · rw [Outcome.exitCode, GuardLevel.code_eq_two_iff]
    refine ⟨fun h => ⟨r₀, hr₀, heq₀.trans h⟩, fun ⟨r, hr, hcrit⟩ => ?_⟩
    have := hle r hr
    rw [hcrit] at this
    exact guardSeverity_crit_le_iff.mp this
  · rw [hquiet hq hj, List.flatMap_eq_nil_iff, Outcome.exitCode, GuardLevel.code_eq_zero_iff,
      hallok]
    exact forall₂_congr fun r _ => chipReport_eq_nil_iff hq hj _ _ _

/-- What `main` does once the options are accepted. -/
def Monitored (host : Host W) (o : Options) (w : W) (out : Outcome) (w' : W) : Prop :=
  match guardFindChips host o.sysfsRoot guardMaxChips w with
  | (none, _) => out.exitCode = 3
  | (some [], _) => out.exitCode = 3
  | (some (c :: cs), w₁) => ∃ runs, ChipRuns host o (c :: cs) w₁ runs w' ∧
      (∀ r ∈ runs, ∀ ss, r.samples = some ss → (ss.length : ℤ) = o.samples ∧ 1 ≤ ss.length ∧
        ∀ s ∈ ss, s.InRange) ∧
      Tells o runs out

theorem guardMonitor_monitored (host : Host W) (o : Options) (w : W) :
    ∃ out w', guardMonitor host o w = some (out, w') ∧ Monitored host o w out w' ∧
      (out.exitCode ≠ 0 → out.stdout ≠ [] ∨ out.stderr ≠ []) := by
  unfold guardMonitor Monitored
  cases hfind : guardFindChips host o.sysfsRoot guardMaxChips w with
  | mk found w₁ =>
    -- no class directory, no chip in it, or at least one
    rcases found with _ | _ | ⟨c, cs⟩
    · exact ⟨_, _, rfl, rfl, fun _ => Or.inr (by simp)⟩
    · exact ⟨_, _, rfl, rfl, fun _ => Or.inr (by simp)⟩
    · obtain ⟨runs, w', text, hruns, hloop, htext⟩ :=
        chipLoop_runs host o (c :: cs) true .ok [] w₁
      dsimp only
      rw [hloop]
      let out : Outcome :=
        ⟨worst guardSeverity .ok (runs.map fun r => (r.verdict o.lim).level),
          if o.json then "[\n".toList ++ text ++ "\n]\n".toList else text, []⟩
      have hne := hruns.ne_nil
      -- without --json the output is the reports, in order
      have hstdout : o.json = false → out.stdout
          = runs.flatMap fun r => chipReport o r.chip (r.verdict o.lim) true :=
        fun hjson => (if_neg (by simp [hjson])).trans (htext hjson)
      have htells : Tells o runs out := tells_worst hne rfl fun _ => hstdout
      refine ⟨out, w', rfl, ⟨runs, hruns, fun r hr ss hss => ?_, htells⟩, fun hcode => Or.inl ?_⟩
      · obtain ⟨hlen, hrange⟩ := hruns.read.2 r hr ss hss
        have hpos := o.samples.property.1
        exact ⟨hlen, by omega, hrange⟩
      · cases hjson : o.json with
        | true => simp [out, hjson]
        | false =>
          -- the worst chip is not OK, so its report is part of the output
          obtain ⟨r, hr, hlevel, -, -⟩ := htells.worst
          have hnot : (r.verdict o.lim).level ≠ .ok := fun hok =>
            hcode (hlevel.trans (GuardLevel.code_eq_zero_iff.mpr hok))
          have hreport := chipReport_ne_nil o r.chip true hnot
          rw [hstdout hjson]
          exact fun hnil => hreport (List.flatMap_eq_nil_iff.mp hnil r hr)

/-- **Never a silent success.** For every command line, every host and every
outcome of every read: the program ends with a status, so no unset slot is ever
evaluated; 0 when parsing comes to an informational option first; 3 when it
comes to anything else it does not accept; and otherwise what `Monitored` says,
3 without a chip and the status of the worst chip with one. A status other than
0 is never silent. -/
theorem guardMain_exitStatus (host : Host W) (version : CStr) (argv : List CStr) (w : W) :
    ∃ out w', guardMain version host argv w = some (out, w') ∧
      (∀ a more, Scans argv.tail (a :: more) → Informational a → out.exitCode = 0) ∧
      (∀ rest, Scans argv.tail rest → Rejected rest → out.exitCode = 3) ∧
      (Scans argv.tail [] →
        ∃ o, optionLoop version argv.tail .default = .run o ∧ Monitored host o w out w') ∧
      (Scans argv.tail [] ∨ (∃ a more, Scans argv.tail (a :: more) ∧ Informational a) ∨
        ∃ rest, Scans argv.tail rest ∧ Rejected rest) ∧
      (out.exitCode ≠ 0 → out.stdout ≠ [] ∨ out.stderr ≠ []) := by
  -- what the loop comes to at each of the three ends
  have hinfo : ∀ a more, Scans argv.tail (a :: more) → Informational a →
      ∃ text, optionLoop version argv.tail .default = .exit ⟨.ok, text, []⟩ := by
    intro a more hscan ha
    obtain ⟨o, ho⟩ := optionLoop_scans version hscan .default
    rw [ho]
    exact optionLoop_informational version ha more o
  have hrejected : ∀ rest, Scans argv.tail rest → Rejected rest →
      ∃ text, text ≠ [] ∧
        optionLoop version argv.tail .default = .exit ⟨.unknown, [], text⟩ := by
    intro rest hscan hrest
    obtain ⟨o, ho⟩ := optionLoop_scans version hscan .default
    rw [ho]
    exact optionLoop_rejected version hrest o
  have hrun : Scans argv.tail [] → ∃ o, optionLoop version argv.tail .default = .run o :=
    fun hscan => optionLoop_scans version hscan .default
  unfold guardMain
  -- the option loop has one result, so the three ways to scan exclude each other
  rcases scans_trichotomy argv.tail with h | ⟨a, more, h, ha⟩ | ⟨rest, h, hr⟩
  · obtain ⟨o, ho⟩ := hrun h
    obtain ⟨out, w', hmon, hspec, hloud⟩ := guardMonitor_monitored host o w
    rw [ho]
    refine ⟨out, w', hmon, fun a more hs ha => ?_, fun rest hs hr => ?_, fun _ => ⟨o, rfl, hspec⟩,
      Or.inl h, hloud⟩
    · obtain ⟨text, htext⟩ := hinfo a more hs ha
      exact absurd (ho.symm.trans htext) (by simp)
    · obtain ⟨text, -, htext⟩ := hrejected rest hs hr
      exact absurd (ho.symm.trans htext) (by simp)
  · obtain ⟨text, ho⟩ := hinfo a more h ha
    rw [ho]
    refine ⟨_, w, rfl, fun _ _ _ _ => rfl, fun rest hs hr => ?_, fun hs => ?_,
      Or.inr (Or.inl ⟨a, more, h, ha⟩), fun hcode => absurd rfl hcode⟩
    · obtain ⟨text', -, htext'⟩ := hrejected rest hs hr
      exact absurd (ho.symm.trans htext') (by simp)
    · obtain ⟨o, ho'⟩ := hrun hs
      exact absurd (ho.symm.trans ho') (by simp)
  · obtain ⟨text, hne, ho⟩ := hrejected rest h hr
    rw [ho]
    refine ⟨_, w, rfl, fun a more hs ha => ?_, fun _ _ _ => rfl, fun hs => ?_,
      Or.inr (Or.inr ⟨rest, h, hr⟩), fun _ => Or.inr hne⟩
    · obtain ⟨text', htext'⟩ := hinfo a more hs ha
      exact absurd (ho.symm.trans htext') (by simp)
    · obtain ⟨o, ho'⟩ := hrun hs
      exact absurd (ho.symm.trans ho') (by simp)

end Astral
