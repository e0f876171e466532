import AstralHwmon.Guard.Tuning
import AstralHwmon.Lib.Json

/-!
# The JSON output as an encoder

What `main` writes under `--json`, against a parser of JSON and a reader of what it
parses: the chips, each with its verdict and the limits (`GuardReport`).

The fragments that `guardReportJson` prints are laid out as the grammar asks
(`guardReportJson_first`, `guardReportJson_next`), around two texts that come from
outside: the path of the chip, and the piece of it that `unreadableVerdict` quotes. They
go out as they are, so that they come back exactly when they are `Verbatim`, which for
the piece is a matter of where the path is cut (`ChipRun.Legible`).

A report whose texts are verbatim is read for what it tells (`reads_reportText`), and
one that is read back had verbatim texts (`verbatim_of_report`). The two carry each other
from one report to the next, since the end of a report is known only once it is read.
-/

open CText Json Fold

namespace Astral

/-! ### Reading a report -/

/-- A finding, as the JSON report tells it. -/
structure ReportFinding where
  rule : CStr
  level : CStr
  pin : ℤ
  value : ℤ
  detail : CStr
  deriving DecidableEq

/-- A chip, as the JSON report tells it. -/
structure GuardReport where
  chip : CStr
  updateIntervalMs : ℤ
  level : CStr
  exitCode : ℤ
  findings : List ReportFinding
  limits : GuardLimits
  deriving DecidableEq

/-- The text of a name. -/
def getText (key : CStr) (v : Value) : Option CStr := (v.get key).bind Value.text?

/-- The integer of a name. -/
def getInt (key : CStr) (v : Value) : Option ℤ := (v.get key).bind Value.int?

/-- A finding, read back from its object. -/
def readFinding (v : Value) : Option ReportFinding := do
  let rule ← getText "rule".toList v
  let level ← getText "level".toList v
  let pin ← getInt "pin".toList v
  let value ← getInt "value".toList v
  let detail ← getText "detail".toList v
  return { rule, level, pin, value, detail }

/-- The limits, read back from theirs. -/
def readLimits (v : Value) : Option GuardLimits := do
  let pinWarnMa ← getInt "pin_warn_ma".toList v
  let pinCritMa ← getInt "pin_crit_ma".toList v
  let openPinMa ← getInt "open_pin_ma".toList v
  let openGateMa ← getInt "open_gate_ma".toList v
  let ratioGateMa ← getInt "ratio_gate_ma".toList v
  let ratioNotePct ← getInt "ratio_note_pct".toList v
  let ratioWarnPct ← getInt "ratio_warn_pct".toList v
  let ratioCritPct ← getInt "ratio_crit_pct".toList v
  let mvWarn ← getInt "mv_warn".toList v
  let mvCrit ← getInt "mv_crit".toList v
  return { pinWarnMa, pinCritMa, openPinMa, openGateMa, ratioGateMa, ratioNotePct,
           ratioWarnPct, ratioCritPct, mvWarn, mvCrit }

/-- The whole report, read back from the document. -/
def readReport (v : Value) : Option GuardReport := do
  let chip ← getText "chip".toList v
  let updateIntervalMs ← getInt "update_interval_ms".toList v
  let level ← getText "level".toList v
  let exitCode ← getInt "exit_code".toList v
  let findings ← (v.get "findings".toList).bind Value.items?
  let findings ← findings.mapM readFinding
  let limits ← (v.get "limits".toList).bind readLimits
  return { chip, updateIntervalMs, level, exitCode, findings, limits }

/-- The reports of an array. -/
def readReports (v : Value) : Option (List GuardReport) := v.items?.bind (List.mapM readReport)

/-- What is to be read of a finding. -/
def GuardFinding.report (f : GuardFinding) : ReportFinding :=
  ⟨f.rule.id, guardLevelName f.level, f.pin, f.value, f.detail⟩

/-- What is to be read of a chip and its verdict. -/
def chipVerdictReport (lim : GuardLimits) (c : GuardChip) (v : GuardVerdict) : GuardReport where
  chip := c.path
  updateIntervalMs := c.updateIntervalMs
  level := guardLevelName v.level
  exitCode := v.level.code
  findings := v.f.map GuardFinding.report
  limits := lim

/-! ### The layout -/

/-- The members of a finding, but for the last. -/
def findingFront (f : GuardFinding) : List CStr :=
  [member [] "rule".toList (' ' :: quoted f.rule.id),
    member [' '] "level".toList (' ' :: quoted (guardLevelName f.level)),
    member [' '] "pin".toList (' ' :: fmtInt f.pin),
    member [' '] "value".toList (' ' :: fmtInt f.value)]

/-- A finding, on a line of its own. -/
def findingText (f : GuardFinding) : CStr :=
  "\n      ".toList ++
    object (findingFront f ++ [member [' '] "detail".toList (' ' :: quoted f.detail)]) []

/-- The members of the limits. -/
def limitsMembers (lim : GuardLimits) : List CStr :=
  [member [] "pin_warn_ma".toList (' ' :: fmtInt lim.pinWarnMa),
    member [' '] "pin_crit_ma".toList (' ' :: fmtInt lim.pinCritMa),
    member [' '] "open_pin_ma".toList (' ' :: fmtInt lim.openPinMa),
    member [' '] "open_gate_ma".toList (' ' :: fmtInt lim.openGateMa),
    member [' '] "ratio_gate_ma".toList (' ' :: fmtInt lim.ratioGateMa),
    member [' '] "ratio_note_pct".toList (' ' :: fmtInt lim.ratioNotePct),
    member [' '] "ratio_warn_pct".toList (' ' :: fmtInt lim.ratioWarnPct),
    member [' '] "ratio_crit_pct".toList (' ' :: fmtInt lim.ratioCritPct),
    member [' '] "mv_warn".toList (' ' :: fmtInt lim.mvWarn),
    member [' '] "mv_crit".toList (' ' :: fmtInt lim.mvCrit)]

/-- The findings. -/
def findingsText (fs : List GuardFinding) : CStr :=
  array (fs.map findingText) (if fs = [] then [] else "\n    ".toList)

/-- The members of a report up to its findings. -/
def reportFront (c : GuardChip) (v : GuardVerdict) : List CStr :=
  [member "\n    ".toList "chip".toList (' ' :: quoted c.path),
    member "\n    ".toList "update_interval_ms".toList (' ' :: fmtInt c.updateIntervalMs),
    member "\n    ".toList "level".toList (' ' :: quoted (guardLevelName v.level)),
    member "\n    ".toList "exit_code".toList (' ' :: fmtInt v.level.code)]

/-- A report, on a line of its own. -/
def reportText (c : GuardChip) (v : GuardVerdict) (lim : GuardLimits) : CStr :=
  "\n  ".toList ++ object (reportFront c v ++
    [member "\n    ".toList "findings".toList (' ' :: findingsText v.f),
      member "\n    ".toList "limits".toList (' ' :: object (limitsMembers lim) [])]) "\n  ".toList

-- Each side is brought to one list of characters, with the values in between. The texts
-- are unfolded by `delta`: deriving the equation of a definition made of literals is slow.

theorem reportJsonFinding_eq (f : GuardFinding) : reportJsonFinding f = findingText f := by
  delta reportJsonFinding findingText findingFront
  simp only [object, List.intercalate_cons_cons,
    List.intercalate_singleton, member, quoted, String.reduceToList, List.append_assoc,
    List.cons_append, List.nil_append]

set_option maxRecDepth 2000 in
theorem reportJsonLimits_eq (lim : GuardLimits) : reportJsonLimits lim
    = "    \"limits\": ".toList ++ object (limitsMembers lim) [] ++ ['\n'] := by
  delta reportJsonLimits
  simp only [object, limitsMembers, List.intercalate_cons_cons, List.intercalate_singleton,
    member, quoted, String.reduceToList, List.append_assoc, List.cons_append, List.nil_append]

/-- The first report follows the line of the bracket. -/
theorem guardReportJson_first (c : GuardChip) (v : GuardVerdict) (lim : GuardLimits) :
    '\n' :: guardReportJson c v lim true = reportText c v lim := by
  delta guardReportJson
  rw [funext reportJsonFinding_eq, reportJsonLimits_eq]
  simp only [reportText, reportFront, findingsText, object, array, List.intercalate_cons_cons,
    List.intercalate_singleton, member, quoted, String.reduceToList, List.append_assoc,
    List.cons_append, List.nil_append, if_true]

/-- Every other report follows a comma. -/
theorem guardReportJson_next (c : GuardChip) (v : GuardVerdict) (lim : GuardLimits) :
    guardReportJson c v lim false = ',' :: reportText c v lim := by
  have hfirst : guardReportJson c v lim false = ",\n".toList ++ guardReportJson c v lim true := by
    delta guardReportJson
    simp only [List.append_assoc, Bool.false_eq_true, if_false, if_true, List.nil_append]
  rw [hfirst, ← guardReportJson_first]
  simp only [String.reduceToList, List.cons_append, List.nil_append]

/-! ### What is laid out is read -/

theorem verbatim_levelName (l : GuardLevel) : Verbatim (guardLevelName l) :=
  .of_plain (by cases l <;> decide)

theorem verbatim_ruleId (r : GuardRule) : Verbatim r.id := .of_plain (by cases r <;> decide)

/-- The object of a finding. -/
def findingValue (f : GuardFinding) : Value :=
  .obj [("rule".toList, .str f.rule.id), ("level".toList, .str (guardLevelName f.level)),
    ("pin".toList, .num f.pin 0), ("value".toList, .num f.value 0),
    ("detail".toList, .str f.detail)]

/-- The object of the limits. -/
def limitsValue (lim : GuardLimits) : Value :=
  .obj [("pin_warn_ma".toList, .num lim.pinWarnMa 0), ("pin_crit_ma".toList, .num lim.pinCritMa 0),
    ("open_pin_ma".toList, .num lim.openPinMa 0), ("open_gate_ma".toList, .num lim.openGateMa 0),
    ("ratio_gate_ma".toList, .num lim.ratioGateMa 0),
    ("ratio_note_pct".toList, .num lim.ratioNotePct 0),
    ("ratio_warn_pct".toList, .num lim.ratioWarnPct 0),
    ("ratio_crit_pct".toList, .num lim.ratioCritPct 0), ("mv_warn".toList, .num lim.mvWarn 0),
    ("mv_crit".toList, .num lim.mvCrit 0)]

/-- The document of a chip. -/
def reportValue (c : GuardChip) (v : GuardVerdict) (lim : GuardLimits) : Value :=
  .obj [("chip".toList, .str c.path), ("update_interval_ms".toList, .num c.updateIntervalMs 0),
    ("level".toList, .str (guardLevelName v.level)), ("exit_code".toList, .num v.level.code 0),
    ("findings".toList, .arr (v.f.map findingValue)), ("limits".toList, limitsValue lim)]

theorem readFinding_findingValue (f : GuardFinding) :
    readFinding (findingValue f) = some f.report := rfl

theorem readReport_reportValue (c : GuardChip) (v : GuardVerdict) (lim : GuardLimits) :
    readReport (reportValue c v lim) = some (chipVerdictReport lim c v) := by
  change (((v.f.map findingValue).mapM readFinding).bind fun findings =>
    some { chipVerdictReport lim c v with findings }) = _
  rw [mapM_map_eq_some readFinding_findingValue]
  rfl

theorem reads_findingFront (f : GuardFinding) : List.Forall₂ ReadsMember (findingFront f)
    [("rule".toList, .str f.rule.id), ("level".toList, .str (guardLevelName f.level)),
      ("pin".toList, .num f.pin 0), ("value".toList, .num f.value 0)] :=
  .cons (.of_reads (by decide) (.of_plain (by decide)) (.str (verbatim_ruleId f.rule))) <|
  .cons (.of_reads (by decide) (.of_plain (by decide)) (.str (verbatim_levelName f.level))) <|
  .cons (.of_reads (by decide) (.of_plain (by decide)) (.int f.pin)) <|
  .cons (.of_reads (by decide) (.of_plain (by decide)) (.int f.value)) .nil

/-- A finding is read, if its detail is verbatim. -/
theorem reads_findingText {f : GuardFinding} (h : Verbatim f.detail) :
    Reads (findingText f) (findingValue f) := by
  have hdetail : ReadsMember (member [' '] "detail".toList (' ' :: quoted f.detail))
      ("detail".toList, .str f.detail) := .of_reads (by decide) (.of_plain (by decide)) (.str h)
  exact .blank (by decide) (.obj (List.rel_append (reads_findingFront f) (.cons hdetail .nil))
    (List.cons_ne_nil _ _) (by decide))

theorem reads_findingsText {fs : List GuardFinding} (h : ∀ f ∈ fs, Verbatim f.detail) :
    Reads (findingsText fs) (.arr (fs.map findingValue)) := by
  by_cases hfs : fs = []
  · subst hfs
    exact .arr_nil
  · rw [findingsText, if_neg hfs]
    refine .arr ?_ (by simpa using hfs) (by decide)
    rw [List.forall₂_map_left_iff, List.forall₂_map_right_iff, List.forall₂_same]
    exact fun f hf => reads_findingText (h f hf)

theorem reads_limitsMembers (lim : GuardLimits) :
    Reads (object (limitsMembers lim) []) (limitsValue lim) := by
  have hint : ∀ {ws key : CStr}, Blank ws → (∀ c ∈ key, Plain c) → ∀ n : ℤ,
      ReadsMember (member ws key (' ' :: fmtInt n)) (key, .num n 0) :=
    fun hws hkey n => .of_reads hws (.of_plain hkey) (.int n)
  refine .obj ?_ (List.cons_ne_nil _ _) (by decide)
  iterate 10 refine .cons (hint (by decide) (by decide) _) ?_
  exact .nil

theorem reads_reportFront {c : GuardChip} (hpath : Verbatim c.path) (v : GuardVerdict) :
    List.Forall₂ ReadsMember (reportFront c v)
      [("chip".toList, .str c.path), ("update_interval_ms".toList, .num c.updateIntervalMs 0),
        ("level".toList, .str (guardLevelName v.level)),
        ("exit_code".toList, .num v.level.code 0)] :=
  .cons (.of_reads (by decide) (.of_plain (by decide)) (.str hpath)) <|
  .cons (.of_reads (by decide) (.of_plain (by decide)) (.int _)) <|
  .cons (.of_reads (by decide) (.of_plain (by decide)) (.str (verbatim_levelName v.level))) <|
  .cons (.of_reads (by decide) (.of_plain (by decide)) (.int _)) .nil

/-- The texts of a report that come from outside are verbatim. -/
def TextsVerbatim (c : GuardChip) (v : GuardVerdict) : Prop :=
  Verbatim c.path ∧ ∀ f ∈ v.f, Verbatim f.detail

/-- **A report is read**, if its texts are verbatim. -/
theorem reads_reportText {c : GuardChip} {v : GuardVerdict} (h : TextsVerbatim c v)
    (lim : GuardLimits) : Reads (reportText c v lim) (reportValue c v lim) := by
  have hfindings : ReadsMember
      (member "\n    ".toList "findings".toList (' ' :: findingsText v.f))
      ("findings".toList, .arr (v.f.map findingValue)) :=
    .of_reads (by decide) (.of_plain (by decide)) (reads_findingsText h.2)
  have hlimits : ReadsMember
      (member "\n    ".toList "limits".toList (' ' :: object (limitsMembers lim) []))
      ("limits".toList, limitsValue lim) :=
    .of_reads (by decide) (.of_plain (by decide)) (reads_limitsMembers lim)
  exact .blank (by decide) (.obj (List.rel_append (reads_reportFront h.1 v)
    (.cons hfindings (.cons hlimits .nil))) (List.cons_ne_nil _ _) (by decide))

/-! ### What is read back was verbatim -/

/-- What stands behind a finding: the line ends before a quote. -/
def EndsLine (rest : CStr) : Prop := ∃ a z, (∀ c ∈ a, Plain c) ∧ rest = a ++ '\n' :: z

/-- A finding that is read back has a verbatim detail. -/
theorem verbatim_of_finding {f : GuardFinding} {n : ℕ} {rest s : CStr} {v : Value}
    (hn : (findingText f).length ≤ n) (hrest : EndsLine rest)
    (h : value n (findingText f ++ rest) = some (v, s)) (hread : readFinding v = some f.report) :
    Verbatim f.detail := by
  have hblank : Blank "\n      ".toList := by decide
  delta findingText at h hn
  rw [List.append_assoc, value_blank hblank] at h
  obtain ⟨m, all, rfl, rfl, hall⟩ := members_of_object (by decide) h
  have hm : (List.intercalate [','] (findingFront f ++
      [member [' '] "detail".toList (' ' :: quoted f.detail)])).length < m := by
    simp only [object, List.length_append, List.length_cons] at hn
    omega
  obtain ⟨m', all', -, hall', rfl⟩ :=
    members_append (reads_findingFront f) (List.cons_ne_nil _ _) hm hall
  rw [List.intercalate_singleton] at hall'
  obtain ⟨m, v, s', ms, rfl, hv, rfl⟩ := members_head (by decide) (.of_plain (by decide)) hall'
  rw [List.cons_append, value_space, quoted, List.cons_append, List.append_assoc,
    List.singleton_append] at hv
  obtain ⟨p, rfl, hscan⟩ := string_of_value hv
  -- the last of the texts read is the detail
  obtain rfl : p = f.detail := congrArg ReportFinding.detail (Option.some.inj hread)
  obtain ⟨a, z, ha, rfl⟩ := hrest
  refine (verbatim_of_scan ?_ hscan).1
  rw [← List.cons_append]
  exact scan_newline (List.forall_mem_cons.mpr ⟨by decide, ha⟩) z

theorem endsLine_newline (s : CStr) : EndsLine ('\n' :: s) := ⟨[], s, by simp, rfl⟩

theorem endsLine_comma (s : CStr) : EndsLine (',' :: '\n' :: s) := ⟨[','], s, by decide, rfl⟩

/-- Findings that are read back have verbatim details. -/
theorem verbatim_of_findings {fs : List GuardFinding} {n : ℕ} {rest s : CStr} {v : Value}
    {vs : List Value} (hn : (findingsText fs).length ≤ n)
    (h : value n (findingsText fs ++ rest) = some (v, s)) (hvs : v.items? = some vs)
    (hread : vs.mapM readFinding = some (fs.map GuardFinding.report)) :
    ∀ f ∈ fs, Verbatim f.detail := by
  cases fs with
  | nil => simp
  | cons f fs =>
    rw [findingsText, if_neg (List.cons_ne_nil f fs)] at h hn
    have hobj : ∀ s, (skip (findingText f ++ s)).head? = some '\x7b' :=
      head?_skip_object (by decide) _ _
    obtain ⟨m, vs', rfl, rfl, hvs'⟩ := elements_of_array hobj h
    obtain rfl := Option.some.inj hvs
    -- each element read back gives its finding, so its text came through
    have hback : ∀ f n rest v s, (findingText f).length ≤ n → EndsLine rest →
        value n (findingText f ++ rest) = some (v, s) → readFinding v = some f.report →
        Verbatim f.detail := fun _ _ _ _ _ => verbatim_of_finding
    have hm : (List.intercalate [','] ((f :: fs).map findingText)).length < m := by
      simp only [array, List.length_append, List.length_cons] at hn
      omega
    exact elements_back (fun f => reads_findingText) hback (fun _ _ => endsLine_comma _)
      (endsLine_newline _) hm hvs' hread

theorem readReport_chip {v : Value} {r : GuardReport} (h : readReport v = some r) :
    getText "chip".toList v = some r.chip := by
  delta readReport at h
  simp only [Option.bind_eq_bind, Option.bind_eq_some_iff, Option.pure_def] at h
  obtain ⟨chip, hchip, _, -, _, -, _, -, _, -, _, -, _, -, heq⟩ := h
  rw [hchip, ← Option.some.inj heq]

theorem readReport_findings {v : Value} {r : GuardReport} (h : readReport v = some r) :
    ∃ vs, (v.get "findings".toList).bind Value.items? = some vs ∧
      vs.mapM readFinding = some r.findings := by
  delta readReport at h
  simp only [Option.bind_eq_bind, Option.bind_eq_some_iff, Option.pure_def] at h
  obtain ⟨_, -, _, -, _, -, _, -, vs, hvs, findings, hfindings, _, -, heq⟩ := h
  refine ⟨vs, Option.bind_eq_some_iff.mpr hvs, ?_⟩
  rw [hfindings, ← Option.some.inj heq]

/-- **What is read back was verbatim.** -/
theorem verbatim_of_report {c : GuardChip} {v : GuardVerdict} {lim : GuardLimits} {n : ℕ}
    {rest s : CStr} {val : Value} (hn : (reportText c v lim).length ≤ n)
    (h : value n (reportText c v lim ++ rest) = some (val, s))
    (hread : readReport val = some (chipVerdictReport lim c v)) : TextsVerbatim c v := by
  have hblank : Blank "\n  ".toList := by decide
  delta reportText at h hn
  rw [List.append_assoc, value_blank hblank] at h
  obtain ⟨m, all, rfl, rfl, hall⟩ := members_of_object (by decide) h
  -- the fuel that is left covers the members
  have hm : (List.intercalate [','] (reportFront c v ++
      [member "\n    ".toList "findings".toList (' ' :: findingsText v.f),
        member "\n    ".toList "limits".toList (' ' :: object (limitsMembers lim) [])])).length
        < m := by
    simp only [object, List.length_append, List.length_cons] at hn ⊢
    omega
  have hpath : Verbatim c.path := by
    -- the first member, whose string must end on its line
    have hall := hall
    rw [List.append_eq, List.cons_append, List.intercalate_cons_cons, List.append_assoc,
      List.append_assoc] at hall
    obtain ⟨m, v, s', ms, rfl, hv, rfl⟩ := members_head (by decide) (.of_plain (by decide)) hall
    rw [List.cons_append, value_space, quoted, List.cons_append, List.append_assoc,
      List.singleton_append] at hv
    obtain ⟨p, rfl, hscan⟩ := string_of_value hv
    obtain rfl : p = c.path := Option.some.inj (readReport_chip hread)
    refine (verbatim_of_scan ?_ hscan).1
    obtain ⟨z, hz⟩ := exists_intercalate_cons [','] _ _
    rw [hz]
    exact scan_newline (show ∀ c ∈ [','], Plain c by decide) _
  -- the members up to the findings are read as they were written
  obtain ⟨m, all', hm', hall', rfl⟩ :=
    members_append (reads_reportFront hpath v) (List.cons_ne_nil _ _) hm hall
  rw [List.intercalate_cons_cons, List.append_assoc, List.append_assoc] at hall'
  obtain ⟨m, v', s', ms, rfl, hv, rfl⟩ := members_head (by decide) (.of_plain (by decide)) hall'
  obtain ⟨vs, hvs, hfindings⟩ := readReport_findings hread
  rw [List.cons_append, value_space] at hv
  refine ⟨hpath, verbatim_of_findings ?_ hv hvs hfindings⟩
  rw [List.intercalate_cons_cons] at hm'
  simp only [member, List.length_append, List.length_cons] at hm'
  omega

/-! ### The texts of a verdict -/

/-- The details of the rules are plain: words and numbers. -/
theorem plain_ruleFindings (lim : GuardLimits) (t : Tally) (n : ℕ) :
    ∀ f ∈ ruleFindings lim t n, ∀ c ∈ f.detail, Plain c := by
  have hcut : ∀ {a : CStr}, (∀ c ∈ a, Plain c) → ∀ c ∈ snprintf 96 a, Plain c :=
    fun ha c hc => ha c (List.mem_of_mem_take hc)
  -- a number, and the words after it
  have hnum : ∀ {a b : CStr} (m : ℤ), (∀ c ∈ a, Plain c) → (∀ c ∈ b, Plain c) →
      ∀ c ∈ a ++ fmtInt m ++ b, Plain c := fun m ha hb =>
    List.forall_mem_append.mpr ⟨List.forall_mem_append.mpr ⟨ha, plain_fmtInt m⟩, hb⟩
  intro f hf
  simp only [ruleFindings, List.mem_append, List.mem_filterMap, Option.mem_toList] at hf
  -- one case to each rule, and in it one to each tier
  rcases hf with ((⟨pin, -, hf⟩ | ⟨pin, -, hf⟩) | hf) | hf
  · delta openPinRule at hf
    split at hf
    · obtain rfl := Option.some.inj hf
      exact hcut (hnum _ (hnum _ (by decide) (by decide)) (by decide))
    · exact absurd hf (by simp)
  · delta pinCurrentRule at hf
    split at hf <;> [skip; split at hf]
    · obtain rfl := Option.some.inj hf
      exact hcut (hnum _ (hnum _ (hnum _ (by decide) (by decide)) (by decide)) (by decide))
    · obtain rfl := Option.some.inj hf
      exact hcut (hnum _ (hnum _ (hnum _ (by decide) (by decide)) (by decide)) (by decide))
    · exact absurd hf (by simp)
  · delta imbalanceRule at hf
    split at hf <;> [skip; split at hf <;> [skip; split at hf]]
    · obtain rfl := Option.some.inj hf
      exact hcut (hnum _ (hnum _ (by decide) (by decide)) (by decide))
    · obtain rfl := Option.some.inj hf
      exact hcut (hnum _ (hnum _ (by decide) (by decide)) (by decide))
    · obtain rfl := Option.some.inj hf
      exact hcut (hnum _ (by decide) (by decide))
    · exact absurd hf (by simp)
  · delta voltageRule at hf
    split at hf <;> [skip; split at hf]
    · obtain rfl := Option.some.inj hf
      exact hcut (hnum _ (hnum _ (by decide) (by decide)) (by decide))
    · obtain rfl := Option.some.inj hf
      exact hcut (hnum _ (hnum _ (by decide) (by decide)) (by decide))
    · exact absurd hf (by simp)

theorem verbatim_guardEval (lim : GuardLimits) (ss : List GuardSample) :
    ∀ f ∈ (guardEval lim ss).f, Verbatim f.detail := by
  cases ss with
  | nil => simp [guardEval, GuardVerdict.start]
  | cons s ss =>
    rw [guardEval_f, List.forall_mem_map]
    intro f hf
    exact .of_plain fun c hc => plain_ruleFindings lim _ _ f hf c (List.mem_of_mem_take hc)

/-- A chip whose report can be read back: its path is verbatim, and if the chip could not
be read, the piece of it that is quoted is not cut inside a character. -/
def ChipRun.Legible (r : ChipRun) : Prop :=
  Verbatim r.chip.path ∧ (r.samples = none → Utf8 (r.chip.path.take 56))

/-- What the verdict on an unreadable chip says fits its field. -/
theorem unreadableVerdict_f (c : GuardChip) : (unreadableVerdict c).f =
    [⟨.unknown, .read, 0, 0, "could not read all channels from ".toList ++ c.path.take 56⟩] := by
  have hfits : ("could not read all channels from ".toList ++ c.path.take 56).length ≤ 95 := by
    have hwords : "could not read all channels from ".toList.length = 33 := by decide
    have hpath := List.length_take_le 56 c.path
    rw [List.length_append, hwords]
    omega
  rw [unreadableVerdict, snprintf, List.take_of_length_le hfits]

/-- The texts of a report are verbatim exactly when the chip is legible. -/
theorem ChipRun.textsVerbatim_iff (lim : GuardLimits) (r : ChipRun) :
    TextsVerbatim r.chip (r.verdict lim) ↔ r.Legible := by
  refine and_congr_right fun hpath => ?_
  unfold ChipRun.verdict
  cases r.samples with
  | some ss => exact iff_of_true (verbatim_guardEval lim ss) (by simp)
  -- the one text that quotes the path, and cuts it at a byte
  | none =>
    have hwords : ∀ c ∈ "could not read all channels from ".toList, Plain c := by decide
    have hclean : ∀ c ∈ r.chip.path.take 56, Clean c :=
      fun c hc => hpath.clean c (List.mem_of_mem_take hc)
    dsimp only
    rw [unreadableVerdict_f, List.forall_mem_singleton]
    constructor
    · intro h _
      exact (utf8From_plain hwords _).symm.trans h.utf8
    · intro h
      exact .plain_append hwords ⟨hclean, h rfl⟩

/-! ### The document -/

section Document

variable (lim : GuardLimits)

/-- What is printed about a chip. -/
def ChipRun.text (r : ChipRun) : CStr := reportText r.chip (r.verdict lim) lim

/-- What is to be read of it. -/
def ChipRun.report (r : ChipRun) : GuardReport := chipVerdictReport lim r.chip (r.verdict lim)

/-- The reports of a run, one array of them. -/
def jsonDocument (runs : List ChipRun) : CStr :=
  array (runs.map (ChipRun.text lim)) ['\n'] ++ ['\n']

variable {lim}

theorem ChipRun.reads_text {r : ChipRun} (h : r.Legible) :
    Reads (r.text lim) (reportValue r.chip (r.verdict lim) lim) :=
  reads_reportText ((textsVerbatim_iff lim r).mpr h) lim

/-- **The document is read back** exactly when every chip is legible. -/
theorem jsonDocument_readBack_iff {runs : List ChipRun} (hne : runs ≠ []) :
    (parse (jsonDocument lim runs)).bind readReports = some (runs.map (ChipRun.report lim)) ↔
      ∀ r ∈ runs, r.Legible := by
  constructor
  · intro h
    obtain ⟨v, hv, hread⟩ := Option.bind_eq_some_iff.mp h
    obtain ⟨rest, hvalue⟩ := value_of_parse hv
    obtain ⟨r, runs, rfl⟩ := List.exists_cons_of_ne_nil hne
    have hobj : ∀ s, (skip (r.text lim ++ s)).head? = some '\x7b' :=
      head?_skip_object (by decide) _ _
    obtain ⟨m, vs, hm, rfl, hvs⟩ := elements_of_array hobj hvalue
    -- from the document read back to each report, and from there to its texts
    have hback : ∀ r n rest v s, (ChipRun.text lim r).length ≤ n → True →
        value n (ChipRun.text lim r ++ rest) = some (v, s) →
        readReport v = some (ChipRun.report lim r) → r.Legible :=
      fun r _ _ _ _ hn _ hvalue hread =>
        (ChipRun.textsVerbatim_iff lim r).mp (verbatim_of_report hn hvalue hread)
    have hlen : (List.intercalate [','] ((r :: runs).map (ChipRun.text lim))).length < m := by
      simp only [jsonDocument, array, List.length_append, List.length_cons] at hm
      omega
    exact elements_back (fun r => ChipRun.reads_text) hback (fun _ _ => trivial) trivial hlen hvs
      hread
  · intro h
    -- with every text legible the parser takes the document as it was put together
    have hreads : Reads (array (runs.map (ChipRun.text lim)) ['\n'])
        (.arr (runs.map fun r => reportValue r.chip (r.verdict lim) lim)) := by
      refine .arr ?_ (by simpa using hne) (by decide)
      rw [List.forall₂_map_left_iff, List.forall₂_map_right_iff, List.forall₂_same]
      exact fun r hr => ChipRun.reads_text (h r hr)
    rw [jsonDocument, parse_of_reads hreads (by decide)]
    exact mapM_map_eq_some (fun r => readReport_reportValue r.chip (r.verdict lim) lim) runs

end Document

/-! ### What the program prints -/

section Prints

variable {W : Type*} {host : Host W} {o : Options}

theorem SampleRun.checkChip {c : GuardChip} {w w' : W} {r : Option (List GuardSample)}
    (h : SampleRun host c (sampleGap o c) o.samples.val.toNat w r w') :
    Astral.checkChip host o c w = (some ((⟨c, r⟩ : ChipRun).verdict o.lim), w') := by
  obtain ⟨r', w'', hrun, hcheck⟩ := checkChip_run host o c w
  obtain ⟨rfl, rfl⟩ := h.unique hrun
  exact hcheck

/-- Behind the first chip, every report is printed after a comma. -/
theorem ChipRuns.chipLoop_json (hjson : o.json = true) {cs : List GuardChip} {w w' : W}
    {runs : List ChipRun} (h : ChipRuns host o cs w runs w') (level : GuardLevel) (out : CStr) :
    chipLoop host o cs false level out w
      = some ((worst guardSeverity level (runs.map fun r => (r.verdict o.lim).level),
          out ++ runs.flatMap fun r => ',' :: r.text o.lim), w') := by
  induction h generalizing level out with
  | nil w => rw [chipLoop, List.flatMap_nil, List.append_nil]; rfl
  | cons hrun _ ih =>
    rw [chipLoop, hrun.checkChip]
    dsimp only
    rw [ih, chipReport, if_pos hjson, guardReportJson_next, List.append_assoc]
    rfl

theorem intercalate_comma (t : CStr) (ts : List CStr) :
    List.intercalate [','] (t :: ts) = t ++ ts.flatMap fun t => ',' :: t := by
  induction ts generalizing t with
  | nil => rw [List.intercalate_singleton, List.flatMap_nil, List.append_nil]
  | cons t' ts ih =>
    rw [List.intercalate_cons_cons, ih, List.append_assoc, List.flatMap_cons]
    rfl

/-- Under `--json` the program prints the document of what it has seen. -/
theorem guardMonitor_json (hjson : o.json = true) {w : W} {runs : List ChipRun} (hne : runs ≠ [])
    (hsees : Sees host o w (some runs)) :
    ∃ out w', guardMonitor host o w = some (out, w') ∧ out.stdout = jsonDocument o.lim runs := by
  obtain ⟨chips, w₁, w₂, hfind, hruns⟩ := hsees
  cases hruns with
  | nil => exact absurd rfl hne
  | @cons c cs _ w' _ r runs hrun hrest =>
    unfold guardMonitor
    rw [hfind]
    dsimp only
    rw [chipLoop, hrun.checkChip]
    dsimp only
    rw [hrest.chipLoop_json hjson]
    refine ⟨_, _, rfl, ?_⟩
    -- the first report stands behind the line of the bracket
    have hfirst : (⟨c, r⟩ : ChipRun).text o.lim
        = '\n' :: guardReportJson c ((⟨c, r⟩ : ChipRun).verdict o.lim) o.lim true :=
      (guardReportJson_first _ _ _).symm
    dsimp only
    rw [if_pos hjson, chipReport, if_pos hjson, jsonDocument, array, List.map_cons,
      intercalate_comma, List.flatMap_map, hfirst]
    simp only [String.reduceToList, List.cons_append, List.append_assoc, List.nil_append]

end Prints

/-- A run that finds one chip sees one chip. -/
theorem exists_sees_one {W : Type*} (host : Host W) (o : Options) (w : W) (path : CStr)
    (hfind : (guardFindChips host o.sysfsRoot guardMaxChips w).1.map (List.map GuardChip.path)
      = some [path]) : ∃ r : ChipRun, Sees host o w (some [r]) ∧ r.chip.path = path := by
  obtain ⟨seen, hsees⟩ := exists_sees host o w
  cases seen with
  | none => rw [Sees] at hsees; exact absurd hfind (by simp [hsees])
  | some runs =>
    obtain ⟨chips, w₁, w₂, hfound, hruns⟩ := id hsees
    rw [hfound, Option.map_some, ← hruns.read.1, List.map_map] at hfind
    obtain ⟨r, rfl, hr⟩ := List.map_eq_singleton_iff.mp (Option.some.inj hfind)
    exact ⟨r, hsees, hr⟩

/-- **What `--json` promises.** A run with `--json` that finds a chip writes one JSON
array with one object for each chip found, in order, and what is read of them is what
was reported: the path, the interval, the level and the exit code, the findings and the
limits. This holds exactly when every chip is legible. -/
theorem guardMain_json {version : CStr} {argv : List CStr} {o : Options}
    (ho : optionLoop version argv.tail .default = .run o) (hjson : o.json = true)
    {W : Type*} {host : Host W} {w : W} {runs : List ChipRun} (hne : runs ≠ [])
    (hsees : Sees host o w (some runs)) :
    ∃ out w', guardMain version host argv w = some (out, w') ∧
      ((parse out.stdout).bind readReports = some (runs.map (ChipRun.report o.lim)) ↔
        ∀ r ∈ runs, r.Legible) := by
  obtain ⟨out, w', hrun, hout⟩ := guardMonitor_json hjson hne hsees
  exact ⟨out, w', by rw [guardMain_of_run ho, hrun], by rw [hout, jsonDocument_readBack_iff hne]⟩

/-- The chip of `unevenPins` is read back from what is printed about it. -/
theorem guardMain_json_unevenPins : ∃ out w' runs, runs ≠ [] ∧
    guardMain "1".toList unevenPins ["astral-guard".toList, "--json".toList] () = some (out, w') ∧
      (parse out.stdout).bind readReports
        = some (runs.map (ChipRun.report guardLimitsDefault)) := by
  have ho : optionLoop "1".toList (List.tail ["astral-guard".toList, "--json".toList]) .default
      = .run (Options.default.set .json) := optionLoop_settings "1".toList [.json] [] .default
  obtain ⟨r, hsees, hpath⟩ := exists_sees_one unevenPins (Options.default.set .json) ()
    "/sys/class/hwmon/hwmon3".toList (by decide +kernel)
  have hlegible : r.Legible := by
    rw [ChipRun.Legible, hpath]
    exact ⟨.of_plain (by decide), fun _ => by decide⟩
  obtain ⟨out, w', hrun, hback⟩ := guardMain_json ho rfl (List.cons_ne_nil r []) hsees
  exact ⟨out, w', [r], List.cons_ne_nil r [], hrun,
    hback.mpr (List.forall_mem_singleton.mpr hlegible)⟩

/-- A quote in the root of sysfs goes out as it is, and the chip under it is not read
back. -/
theorem guardMain_json_quotedRoot : ∃ out w' r,
    guardMain "1".toList unevenPins ["astral-guard".toList, "--sysfs-root".toList,
      "/tmp/a\"b".toList, "--json".toList] () = some (out, w') ∧
    Sees unevenPins ((Options.default.set (.sysfsRoot "/tmp/a\"b".toList)).set .json) ()
      (some [r]) ∧
    r.chip.path = "/tmp/a\"b/class/hwmon/hwmon3".toList ∧
    (parse out.stdout).bind readReports ≠ some [r.report guardLimitsDefault] := by
  have ho : optionLoop "1".toList (List.tail ["astral-guard".toList, "--sysfs-root".toList,
      "/tmp/a\"b".toList, "--json".toList]) .default
      = .run ((Options.default.set (.sysfsRoot "/tmp/a\"b".toList)).set .json) :=
    optionLoop_settings "1".toList [.sysfsRoot "/tmp/a\"b".toList, .json] [] .default
  obtain ⟨r, hsees, hpath⟩ := exists_sees_one unevenPins
    ((Options.default.set (.sysfsRoot "/tmp/a\"b".toList)).set .json) ()
    "/tmp/a\"b/class/hwmon/hwmon3".toList (by decide +kernel)
  obtain ⟨out, w', hrun, hout⟩ := guardMonitor_json rfl (List.cons_ne_nil r []) hsees
  refine ⟨out, w', r, by rw [guardMain_of_run ho, hrun], hsees, hpath, fun hback => ?_⟩
  rw [hout] at hback
  have hlegible := (jsonDocument_readBack_iff (List.cons_ne_nil r [])).mp hback r
    List.mem_cons_self
  -- the quote in the path ends the string
  have hclean := hlegible.1.clean '"' (by rw [hpath]; decide)
  exact hclean.1 rfl

end Astral
