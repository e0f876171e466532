import AstralHwmon.Driver.Regs
import AstralHwmon.Lib.CText

/-!
# Types and limits of astral-guard

The data of `guard/astral_guard.h`. A level doubles as the process exit code,
and the order of the codes is not the order of severity: UNKNOWN is 3 and
CRITICAL is 2. `guardSeverity` is the order that is compared.

A verdict carries the bound on its findings array, so that a list longer than
the array cannot be built; a chip carries the size of its path buffer and the
range of its interval.
-/

open CText

namespace Astral

/-- `GUARD_MAX_CHIPS`. -/
def guardMaxChips : ℕ := 4

/-- `GUARD_MAX_FINDINGS`. -/
def guardMaxFindings : ℕ := 16

/-- `GUARD_MAX_SAMPLES`. -/
def guardMaxSamples : ℤ := 32

/-- `GUARD_DEFAULT_SAMPLES`. -/
def guardDefaultSamples : ℤ := 5

/-- `GUARD_DEFAULT_INTERVAL_MS`. -/
def guardDefaultIntervalMs : ℤ := 200

/-- `GUARD_MAX_INTERVAL_MS`: an hour. -/
def guardMaxIntervalMs : ℤ := 3600000

/-- What a parser with bounds hands out: an integer within them. -/
abbrev Ranged (lo hi : ℤ) := {v : ℤ // lo ≤ v ∧ v ≤ hi}

/-- `GUARD_CHIP_NAME`. -/
def guardChipName : CStr := "astral12vhpwr".toList

/-- `GUARD_MV_MIN`: the driver publishes no lower voltage. -/
def guardMvMin : ℤ := 6000

/-- `GUARD_MV_MAX`: nor a higher one. -/
def guardMvMax : ℤ := 13000

/-- `GUARD_MA_MAX`: nor a larger current. -/
def guardMaMax : ℤ := 30000

/-- `enum guard_level`, together with the advisory `GUARD_NOTE`. -/
inductive GuardLevel
  | ok | warn | crit | unknown | note
  deriving DecidableEq, Repr

/-- The number a level is in the source, and the exit code it becomes. -/
def GuardLevel.code : GuardLevel → ℤ
  | .ok => 0
  | .warn => 1
  | .crit => 2
  | .unknown => 3
  | .note => -1

/-- `guard_severity`. -/
def guardSeverity : GuardLevel → ℕ
  | .note => 1
  | .ok => 0
  | .warn => 2
  | .unknown => 3
  | .crit => 4

/-- `struct guard_sample`. -/
structure GuardSample where
  mv : Pin → ℤ
  ma : Pin → ℤ

/-- The readings the guard admits into a sample. -/
def GuardSample.InRange (s : GuardSample) : Prop :=
  ∀ pin, (guardMvMin ≤ s.mv pin ∧ s.mv pin ≤ guardMvMax) ∧ 0 ≤ s.ma pin ∧ s.ma pin ≤ guardMaMax

instance (s : GuardSample) : Decidable s.InRange := inferInstanceAs (Decidable (∀ _, _))

/-- `struct guard_limits`. -/
structure GuardLimits where
  pinWarnMa : ℤ
  pinCritMa : ℤ
  openPinMa : ℤ
  openGateMa : ℤ
  ratioGateMa : ℤ
  ratioNotePct : ℤ
  ratioWarnPct : ℤ
  ratioCritPct : ℤ
  mvWarn : ℤ
  mvCrit : ℤ
  deriving DecidableEq

/-- `guard_limits_default`. -/
def guardLimitsDefault : GuardLimits where
  pinWarnMa := 9200
  pinCritMa := 9500
  openPinMa := 500
  openGateMa := 10000
  ratioGateMa := 20000
  ratioNotePct := 85
  ratioWarnPct := 70
  ratioCritPct := 60
  mvWarn := 11400
  mvCrit := 11000

/-- Limits that differ from the default in the two tunable ratios only. -/
def GuardLimits.Tuned (lim : GuardLimits) : Prop :=
  (1 ≤ lim.ratioWarnPct ∧ lim.ratioWarnPct ≤ 100) ∧
  (1 ≤ lim.ratioNotePct ∧ lim.ratioNotePct ≤ 100) ∧
  lim = { guardLimitsDefault with
    ratioWarnPct := lim.ratioWarnPct, ratioNotePct := lim.ratioNotePct }

/-- The rules a finding can name. -/
inductive GuardRule
  | openPin | pinCurrent | imbalance | voltage | read
  deriving DecidableEq, Repr

/-- The stable id of a rule. -/
def GuardRule.id : GuardRule → CStr
  | .openPin => "open-pin".toList
  | .pinCurrent => "pin-current".toList
  | .imbalance => "imbalance".toList
  | .voltage => "voltage".toList
  | .read => "read".toList

/-- `struct guard_finding`. `pin` is 1 to 6, or 0 when not pin-specific. -/
structure GuardFinding where
  level : GuardLevel
  rule : GuardRule
  pin : ℕ
  value : ℤ
  detail : CStr
  deriving DecidableEq

/-- `struct guard_verdict`; `n` is the length of `f`. -/
structure GuardVerdict where
  level : GuardLevel
  f : List GuardFinding
  room : f.length ≤ guardMaxFindings

/-- A verdict zeroed by `memset`, at `GUARD_OK`. -/
def GuardVerdict.start : GuardVerdict := ⟨.ok, [], by decide⟩

/-- `struct guard_chip`. -/
structure GuardChip where
  path : CStr
  path_fits : path.length < 3072
  updateIntervalMs : Ranged 0 guardMaxIntervalMs
  deriving DecidableEq

end Astral
