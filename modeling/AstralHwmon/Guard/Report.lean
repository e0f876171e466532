import AstralHwmon.Guard.Types

/-!
# Text and JSON output

`guard/guard_report.c`: what the two reports write to a stream, as text. Every
number in them is an integer.
-/

open CText

namespace Astral

/-- `guard_level_name`. -/
def guardLevelName : GuardLevel → CStr
  | .ok => "OK".toList
  | .warn => "WARNING".toList
  | .crit => "CRITICAL".toList
  | .unknown => "UNKNOWN".toList
  | .note => "NOTE".toList

/-- `guard_report_text`. -/
def guardReportText (c : GuardChip) (v : GuardVerdict) : CStr :=
  guardLevelName v.level ++ " 12VHPWR ".toList ++ c.path ++ "\n".toList ++
    v.f.flatMap fun f =>
      "  [".toList ++ guardLevelName f.level ++ "] ".toList ++ f.detail ++ "\n".toList

/-- One finding of the JSON report. -/
def reportJsonFinding (f : GuardFinding) : CStr :=
  "\n      \x7b\"rule\": \"".toList ++ f.rule.id ++ "\", \"level\": \"".toList ++
    guardLevelName f.level ++ "\", \"pin\": ".toList ++ fmtInt f.pin ++ ", \"value\": ".toList ++
    fmtInt f.value ++ ", \"detail\": \"".toList ++ f.detail ++ "\"\x7d".toList

/-- The limits, as the JSON report carries them. -/
def reportJsonLimits (lim : GuardLimits) : CStr :=
  "    \"limits\": \x7b\"pin_warn_ma\": ".toList ++ fmtInt lim.pinWarnMa ++
    ", \"pin_crit_ma\": ".toList ++ fmtInt lim.pinCritMa ++
    ", \"open_pin_ma\": ".toList ++ fmtInt lim.openPinMa ++
    ", \"open_gate_ma\": ".toList ++ fmtInt lim.openGateMa ++
    ", \"ratio_gate_ma\": ".toList ++ fmtInt lim.ratioGateMa ++
    ", \"ratio_note_pct\": ".toList ++ fmtInt lim.ratioNotePct ++
    ", \"ratio_warn_pct\": ".toList ++ fmtInt lim.ratioWarnPct ++
    ", \"ratio_crit_pct\": ".toList ++ fmtInt lim.ratioCritPct ++
    ", \"mv_warn\": ".toList ++ fmtInt lim.mvWarn ++
    ", \"mv_crit\": ".toList ++ fmtInt lim.mvCrit ++ "\x7d\n".toList

/-- `guard_report_json`. -/
def guardReportJson (c : GuardChip) (v : GuardVerdict) (lim : GuardLimits) (first : Bool) :
    CStr :=
  (if first then [] else ",\n".toList) ++ "  \x7b\n".toList ++
    "    \"chip\": \"".toList ++ c.path ++ "\",\n".toList ++
    "    \"update_interval_ms\": ".toList ++ fmtInt c.updateIntervalMs ++ ",\n".toList ++
    "    \"level\": \"".toList ++ guardLevelName v.level ++ "\",\n".toList ++
    "    \"exit_code\": ".toList ++ fmtInt v.level.code ++ ",\n".toList ++
    "    \"findings\": [".toList ++
    List.intercalate ",".toList (v.f.map reportJsonFinding) ++
    (if v.f = [] then [] else "\n    ".toList) ++ "],\n".toList ++
    reportJsonLimits lim ++ "  \x7d".toList

/-! ### Reports are never empty -/

theorem guardReportText_ne_nil (c : GuardChip) (v : GuardVerdict) : guardReportText c v ≠ [] :=
  List.append_ne_nil_of_left_ne_nil (List.append_ne_nil_of_right_ne_nil _ (by decide)) _

theorem guardReportJson_ne_nil (c : GuardChip) (v : GuardVerdict) (lim : GuardLimits)
    (first : Bool) : guardReportJson c v lim first ≠ [] :=
  List.append_ne_nil_of_right_ne_nil _ (by decide)

end Astral
