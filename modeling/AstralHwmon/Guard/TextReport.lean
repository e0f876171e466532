import AstralHwmon.Guard.JsonReport
import AstralHwmon.Lib.Lines

/-!
# The text output as an encoder

What `main` writes without `--json`, against a reader of it: a block for each chip, with
the level and the path of the chip on the first line and a level and a text on each line
under it. The tags the lines begin with are told apart by their beginnings
(`prefixFree_textTag`), so that the reader is the inverse of the writer
(`readTextReports_eq_some_iff`), and only a newline in a path can confuse it.

`guardMain_text` is the whole: the output of a run is read back exactly when no reported
path has a newline in it, and the worst of the levels in it is the status of the run, with
`--quiet` and without.
-/

open CText Lines Fold

namespace Astral

/-! ### Reading the lines -/

/-- What a line of the text report is about: a chip, or a finding. -/
inductive TextLine
  | chip (level : GuardLevel)
  | finding (level : GuardLevel)
  deriving DecidableEq

/-- What a line begins with. -/
def textTag : TextLine → CStr
  | .chip level => guardLevelName level ++ " 12VHPWR ".toList
  | .finding level => "  [".toList ++ guardLevelName level ++ "] ".toList

/-- The levels, the advisory one last. -/
def guardLevels : List GuardLevel := [.ok, .warn, .crit, .unknown, .note]

/-- Every tag. -/
def textLines : List TextLine := guardLevels.map .chip ++ guardLevels.map .finding

/-- A level and what is said at it: a chip's path, or a finding's text. -/
structure Said where
  level : GuardLevel
  text : CStr
  deriving DecidableEq

/-- The first line of a chip. -/
def readChipLine (line : CStr) : Option Said :=
  (readTag textTag textLines line).bind fun
    | (.chip level, path) => some ⟨level, path⟩
    | (.finding _, _) => none

/-- The line of a finding. -/
def readFindingLine (line : CStr) : Option Said :=
  (readTag textTag textLines line).bind fun
    | (.chip _, _) => none
    | (.finding level, detail) => some ⟨level, detail⟩

/-- The reports of a text. -/
def readTextReports (s : CStr) : Option (List (Said × List Said)) :=
  readBlocks readChipLine readFindingLine (lines s)

/-- The line of a chip. -/
def chipLine (said : Said) : CStr := textTag (.chip said.level) ++ said.text

/-- The line of a finding. -/
def findingLine (said : Said) : CStr := textTag (.finding said.level) ++ said.text

theorem mem_textLines (k : TextLine) : k ∈ textLines := by
  cases k with
  | chip level => cases level <;> decide
  | finding level => cases level <;> decide

/-- No tag begins another. -/
theorem prefixFree_textTag : PrefixFree textTag := by
  have hall : ∀ k ∈ textLines, ∀ k' ∈ textLines, textTag k <+: textTag k' → k = k' := by
    decide +kernel
  exact fun k k' => hall k (mem_textLines k) k' (mem_textLines k')

theorem readChipLine_eq_some_iff (line : CStr) (said : Said) :
    readChipLine line = some said ↔ line = chipLine said := by
  rw [chipLine, ← readTag_eq_some_iff prefixFree_textTag mem_textLines, readChipLine,
    Option.bind_eq_some_iff]
  constructor
  · rintro ⟨⟨level | level, text⟩, hread, hsaid⟩
    · obtain rfl := Option.some.inj hsaid
      exact hread
    · exact absurd hsaid (by simp)
  · intro hread
    exact ⟨_, hread, rfl⟩

theorem readFindingLine_eq_some_iff (line : CStr) (said : Said) :
    readFindingLine line = some said ↔ line = findingLine said := by
  rw [findingLine, ← readTag_eq_some_iff prefixFree_textTag mem_textLines, readFindingLine,
    Option.bind_eq_some_iff]
  constructor
  · rintro ⟨⟨level | level, text⟩, hread, hsaid⟩
    · exact absurd hsaid (by simp)
    · obtain rfl := Option.some.inj hsaid
      exact hread
  · intro hread
    exact ⟨_, hread, rfl⟩

/-- The line of a chip is none of a finding. -/
theorem readFindingLine_chipLine (said : Said) : readFindingLine (chipLine said) = none := by
  have hread : readTag textTag textLines (chipLine said) = some (.chip said.level, said.text) :=
    (readTag_eq_some_iff prefixFree_textTag mem_textLines).mpr rfl
  rw [readFindingLine, hread]
  rfl

/-- **The reader is the inverse of the writer.** A text is read as reports exactly when its
lines are the lines of those reports. -/
theorem readTextReports_eq_some_iff {s : CStr} {reports : List (Said × List Said)} :
    readTextReports s = some reports ↔ lines s = blockLines chipLine findingLine reports :=
  readBlocks_eq_some_iff readChipLine_eq_some_iff readFindingLine_eq_some_iff
    readFindingLine_chipLine

/-! ### Writing them -/

/-- What is to be read of a chip and its verdict. -/
def textReport (c : GuardChip) (v : GuardVerdict) : Said × List Said :=
  (⟨v.level, c.path⟩, v.f.map fun f => ⟨f.level, f.detail⟩)

/-- The report of a chip is the lines of its block. -/
theorem guardReportText_eq (c : GuardChip) (v : GuardVerdict) :
    guardReportText c v = unlines (blockLines chipLine findingLine [textReport c v]) := by
  have hfindings : ∀ fs : List GuardFinding,
      (fs.flatMap fun f =>
          "  [".toList ++ guardLevelName f.level ++ "] ".toList ++ f.detail ++ "\n".toList)
        = unlines ((fs.map fun f => (⟨f.level, f.detail⟩ : Said)).map findingLine) := by
    intro fs
    rw [unlines, List.flatMap_map, List.flatMap_map]
    rfl
  rw [guardReportText, hfindings]
  simp only [blockLines, List.flatMap_cons, List.flatMap_nil, List.append_nil, unlines]
  rfl

/-- Nothing in the lines of a block is a newline but in what is said. -/
theorem newline_notMem_blockLines {reports : List (Said × List Said)} :
    (∀ l ∈ blockLines chipLine findingLine reports, '\n' ∉ l) ↔
      ∀ report ∈ reports, '\n' ∉ report.1.text ∧ ∀ said ∈ report.2, '\n' ∉ said.text := by
  have hline : ∀ (k : TextLine) (text : CStr), '\n' ∉ textTag k ++ text ↔ '\n' ∉ text := by
    intro k text
    have htag : '\n' ∉ textTag k := by
      revert k
      rintro (level | level) <;> cases level <;> decide
    rw [List.mem_append, not_or]
    exact and_iff_right htag
  simp only [blockLines, List.forall_mem_flatMap, List.forall_mem_cons, List.forall_mem_map,
    chipLine, findingLine, hline]

/-- **Reports are read back** exactly when nothing said in them has a newline in it. -/
theorem readTextReports_unlines {reports : List (Said × List Said)} :
    readTextReports (unlines (blockLines chipLine findingLine reports)) = some reports ↔
      ∀ report ∈ reports, '\n' ∉ report.1.text ∧ ∀ said ∈ report.2, '\n' ∉ said.text := by
  rw [readTextReports_eq_some_iff, lines_unlines_iff, newline_notMem_blockLines]

/-! ### What the program prints -/

section Prints

variable {W : Type*} {host : Host W}

/-- Without `--json`, a chip is reported unless it is OK and the run is quiet. -/
def Options.Reports (o : Options) (r : ChipRun) : Prop :=
  o.quiet = false ∨ (r.verdict o.lim).level ≠ .ok

instance (o : Options) : DecidablePred o.Reports := fun _ => inferInstanceAs (Decidable (_ ∨ _))

/-- What is to be read of a run. -/
def textReports (o : Options) (runs : List ChipRun) : List (Said × List Said) :=
  (runs.filter (o.Reports ·)).map fun r => textReport r.chip (r.verdict o.lim)

variable {o : Options}

/-- What is printed about the chips are the lines of their reports. -/
theorem flatMap_chipReport (hjson : o.json = false) (runs : List ChipRun) :
    (runs.flatMap fun r => chipReport o r.chip (r.verdict o.lim) true)
      = unlines (blockLines chipLine findingLine (textReports o runs)) := by
  induction runs with
  | nil => rfl
  | cons r runs ih =>
    rw [List.flatMap_cons, ih]
    -- what is printed of a chip is its block or nothing
    by_cases hr : o.Reports r
    · have hprint : chipReport o r.chip (r.verdict o.lim) true
          = guardReportText r.chip (r.verdict o.lim) := by
        have hcond : (!o.quiet || (r.verdict o.lim).level ≠ .ok) = true := by
          rcases hr with hquiet | hlevel
          · simp [hquiet]
          · simp [hlevel]
        rw [chipReport, if_neg (by simp [hjson]), if_pos hcond]
      rw [hprint, guardReportText_eq, ← unlines_append, textReports, textReports,
        List.filter_cons_of_pos (by simpa using hr), List.map_cons]
      simp only [blockLines, List.flatMap_cons, List.flatMap_nil, List.append_nil]
    · obtain ⟨hquiet, hlevel⟩ := not_or.mp hr
      have hnil : chipReport o r.chip (r.verdict o.lim) true = [] :=
        (chipReport_eq_nil_iff (by simpa using hquiet) hjson _ _ _).mpr (not_not.mp hlevel)
      rw [hnil, List.nil_append, textReports, textReports,
        List.filter_cons_of_neg (by simpa using hr)]

/-- What is said about a chip has a newline in it only if the chip's path does. -/
theorem ChipRun.newline_notMem_details {r : ChipRun} (hpath : '\n' ∉ r.chip.path) :
    ∀ f ∈ (r.verdict o.lim).f, '\n' ∉ f.detail := by
  unfold ChipRun.verdict
  cases r.samples with
  | some ss =>
    intro f hf hnl
    have hclean := (verbatim_guardEval o.lim ss f hf).clean _ hnl
    exact absurd hclean.2.2 (by decide)
  | none =>
    dsimp only
    rw [unreadableVerdict_f, List.forall_mem_singleton, List.mem_append, not_or]
    exact ⟨by decide, fun hnl => hpath (List.mem_of_mem_take hnl)⟩

/-- An OK chip that is left out does not change the worst level. -/
theorem worst_textReports (level : GuardLevel) (runs : List ChipRun) :
    worst guardSeverity level ((textReports o runs).map fun report => report.1.level)
      = worst guardSeverity level (runs.map fun r => (r.verdict o.lim).level) := by
  induction runs generalizing level with
  | nil => rfl
  | cons r runs ih =>
    rw [List.map_cons, worst_cons]
    by_cases hr : o.Reports r
    · rw [textReports, List.filter_cons_of_pos (by simpa using hr), List.map_cons, List.map_cons,
        worst_cons]
      exact ih _
    · have hok : (r.verdict o.lim).level = .ok := not_not.mp (not_or.mp hr).2
      -- nothing is less severe than OK
      have hsame : worse guardSeverity level (r.verdict o.lim).level = level := by
        rw [hok]
        exact if_neg (Nat.not_lt_zero _)
      rw [textReports, List.filter_cons_of_neg (by simpa using hr), hsame]
      exact ih level

/-- Without `--json` the program prints the lines of what it reports. -/
theorem guardMonitor_text (hjson : o.json = false) {w : W} {runs : List ChipRun}
    (hne : runs ≠ []) (hsees : Sees host o w (some runs)) :
    ∃ out w', guardMonitor host o w = some (out, w') ∧
      out.stdout = unlines (blockLines chipLine findingLine (textReports o runs)) ∧
      out.status = worst guardSeverity .ok (runs.map fun r => (r.verdict o.lim).level) := by
  obtain ⟨chips, w₁, w₂, hfind, hruns⟩ := hsees
  cases chips with
  | nil =>
    cases hruns
    exact absurd rfl hne
  | cons c cs =>
    -- the loop over the chips prints their reports one after the other
    obtain ⟨runs', w', text, hruns', hloop, htext⟩ := chipLoop_runs host o (c :: cs) true .ok [] w₁
    obtain ⟨rfl, -⟩ := hruns.unique hruns'
    unfold guardMonitor
    rw [hfind]
    dsimp only
    rw [hloop]
    refine ⟨_, _, rfl, ?_, rfl⟩
    dsimp only
    rw [if_neg (by simp [hjson]), htext hjson, List.nil_append, flatMap_chipReport hjson]

end Prints

/-- **What the text output promises.** A run without `--json` that finds a chip writes a
block for each chip it reports, in order, which is every chip or with `--quiet` every chip
that is not OK; and what is read of the output is the level and path of each and its
findings, exactly when no path of a reported chip has a newline in it. The worst level that
is reported, or OK if there is none, is the status of the run. -/
theorem guardMain_text {version : CStr} {argv : List CStr} {o : Options}
    (ho : optionLoop version argv.tail .default = .run o) (hjson : o.json = false)
    {W : Type*} {host : Host W} {w : W} {runs : List ChipRun} (hne : runs ≠ [])
    (hsees : Sees host o w (some runs)) :
    ∃ out w', guardMain version host argv w = some (out, w') ∧
      (readTextReports out.stdout = some (textReports o runs) ↔
        ∀ r ∈ runs, o.Reports r → '\n' ∉ r.chip.path) ∧
      out.status = worst guardSeverity .ok
        ((textReports o runs).map fun report => report.1.level) := by
  obtain ⟨out, w', hrun, hout, hstatus⟩ := guardMonitor_text hjson hne hsees
  refine ⟨out, w', by rw [guardMain_of_run ho, hrun], ?_, ?_⟩
  -- a finding's text has a newline only if it quotes a path that does
  · rw [hout, readTextReports_unlines, textReports, List.forall_mem_map]
    simp only [List.mem_filter, decide_eq_true_eq]
    constructor
    · intro h r hr hreported
      exact (h r ⟨hr, hreported⟩).1
    · rintro h r ⟨hr, hreported⟩
      have hpath := h r hr hreported
      refine ⟨hpath, ?_⟩
      rw [textReport, List.forall_mem_map]
      exact ChipRun.newline_notMem_details hpath
  · rw [hstatus, worst_textReports]

/-- The chip of `unevenPins` is read back from what is printed about it. -/
theorem guardMain_text_unevenPins : ∃ out w' runs, runs ≠ [] ∧
    guardMain "1".toList unevenPins ["astral-guard".toList] () = some (out, w') ∧
      readTextReports out.stdout = some (textReports .default runs) := by
  have ho : optionLoop "1".toList (List.tail ["astral-guard".toList]) .default = .run .default :=
    rfl
  obtain ⟨r, hsees, hpath⟩ := exists_sees_one unevenPins .default ()
    "/sys/class/hwmon/hwmon3".toList (by decide +kernel)
  obtain ⟨out, w', hrun, hback, -⟩ := guardMain_text ho rfl (List.cons_ne_nil r []) hsees
  refine ⟨out, w', [r], List.cons_ne_nil r [], hrun, hback.mpr fun r' hr' _ => ?_⟩
  obtain rfl := List.mem_singleton.mp hr'
  rw [hpath]
  decide

end Astral
