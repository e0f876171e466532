import AstralHwmon.Guard.Eval
import AstralHwmon.Guard.Report
import AstralHwmon.Guard.Sysfs

/-!
# Command line and orchestration

`guard/guard_main.c` over an arbitrary host. `optionLoop` is the loop over
`argv`, `sampleLoop` the reads of one chip, `chipLoop` the loop over the chips
found. `guardMain` returns the exit status and everything written to the two
streams.

Samples live on the stack, unset until read, and looking at an unset slot is
undefined behaviour in C. `checkChip` is therefore partial: it has no result when
a sample passed to `guard_eval` has an unset slot. That `guardMain` always has a
result is a theorem, not a convention.
-/

open CText Fold

namespace Astral

/-- What the option loop gathers. The ranges it admits are part of the type. -/
structure Options where
  lim : GuardLimits
  lim_tuned : lim.Tuned
  sysfsRoot : CStr
  samples : Ranged 1 guardMaxSamples
  interval : Ranged 0 guardMaxIntervalMs
  json : Bool
  quiet : Bool

/-- The values before the first option. -/
def Options.default : Options where
  lim := guardLimitsDefault
  lim_tuned := by unfold GuardLimits.Tuned; decide
  sysfsRoot := "/sys".toList
  samples := ⟨guardDefaultSamples, by decide⟩
  interval := ⟨0, by decide⟩
  json := false
  quiet := false

/-- `--warn-ratio`: the other limits stay as they were tuned. -/
def Options.setWarnRatio (o : Options) (pct : Ranged 1 100) : Options :=
  { o with
    lim := { o.lim with ratioWarnPct := pct }
    lim_tuned := ⟨pct.property, o.lim_tuned.2.1, by rw [o.lim_tuned.2.2]⟩ }

/-- `--note-ratio`, in the same way. -/
def Options.setNoteRatio (o : Options) (pct : Ranged 1 100) : Options :=
  { o with
    lim := { o.lim with ratioNotePct := pct }
    lim_tuned := ⟨o.lim_tuned.1, pct.property, by rw [o.lim_tuned.2.2]⟩ }

/-- How the program ends: its status, and what it wrote. -/
structure Outcome where
  status : GuardLevel
  stdout : CStr
  stderr : CStr

/-- The process's exit code. -/
def Outcome.exitCode (out : Outcome) : ℤ := out.status.code

/-- The option loop ends the program, or lets it run. -/
inductive Parsed
  | exit (out : Outcome)
  | run (o : Options)

/-- The text of `usage`. -/
def usage : CStr :=
  ("usage: astral-guard [options]\n" ++
    "  --json               machine-readable output\n" ++
    "  --samples N          samples per run (default ").toList ++ fmtInt guardDefaultSamples ++
  (")\n" ++
    "  --interval MS        ms between samples (default: the chip's)\n" ++
    "  --sysfs-root PATH    sysfs mount point (default /sys)\n" ++
    "  --warn-ratio PCT     min/max warning threshold (default ").toList ++
    fmtInt guardLimitsDefault.ratioWarnPct ++
  (")\n" ++
    "  --note-ratio PCT     min/max advisory threshold (default ").toList ++
    fmtInt guardLimitsDefault.ratioNotePct ++
  (")\n" ++
    "  --quiet              print only when not OK\n" ++
    "  --version\n" ++
    "\nexit: 0 OK, 1 WARNING, 2 CRITICAL, 3 UNKNOWN\n").toList

/-- What `parse_int` writes when it refuses a value. -/
def parseIntError (what : CStr) (lo hi : ℤ) (s : CStr) : CStr :=
  what ++ " takes an integer in ".toList ++ fmtInt lo ++ "..".toList ++ fmtInt hi ++
    ", not \"".toList ++ s ++ "\"\n".toList

/-- `parse_int`: the value, or the complaint. -/
def parseInt (s : CStr) (lo hi : ℤ) (what : CStr) : Except CStr (Ranged lo hi) :=
  match parseRanged s lo hi with
  | none => .error (parseIntError what lo hi s)
  | some v => .ok v

/-- The way out of the option loop on an unknown or incomplete option. -/
def refuseOption (a : CStr) : Parsed :=
  .exit ⟨.unknown, [], "unknown or incomplete option: ".toList ++ a ++ "\n".toList ++ usage⟩

variable (version : CStr)

/-- The option loop of `main`, over the arguments after the program's name.
`version` is `GUARD_VERSION`. -/
def optionLoop : List CStr → Options → Parsed
  | [], o => .run o
  | a :: rest, o =>
    if a = "--json".toList then optionLoop rest { o with json := true }
    else if a = "--quiet".toList then optionLoop rest { o with quiet := true }
    else if a = "--version".toList then
      .exit ⟨.ok, "astral-guard ".toList ++ version ++ "\n".toList, []⟩
    else if a = "--help".toList ∨ a = "-h".toList then .exit ⟨.ok, usage, []⟩
    else
      -- the other options take a value; without one they are as good as unknown
      match rest with
      | [] => refuseOption a
      | value :: rest =>
        if a = "--samples".toList then
          match parseInt value 1 guardMaxSamples a with
          | .error e => .exit ⟨.unknown, [], e⟩
          | .ok v => optionLoop rest { o with samples := v }
        else if a = "--interval".toList then
          match parseInt value 0 guardMaxIntervalMs a with
          | .error e => .exit ⟨.unknown, [], e⟩
          | .ok v => optionLoop rest { o with interval := v }
        else if a = "--sysfs-root".toList then optionLoop rest { o with sysfsRoot := value }
        else if a = "--warn-ratio".toList then
          match parseInt value 1 100 a with
          | .error e => .exit ⟨.unknown, [], e⟩
          | .ok v => optionLoop rest (o.setWarnRatio v)
        else if a = "--note-ratio".toList then
          match parseInt value 1 100 a with
          | .error e => .exit ⟨.unknown, [], e⟩
          | .ok v => optionLoop rest (o.setNoteRatio v)
        else refuseOption a

variable {W : Type*} (host : Host W)

/-- `nap`. -/
def nap (ms : ℤ) (w : W) : W :=
  if ms ≤ 0 then w else host.nanosleep ⟨ms.tdiv 1000, ms.tmod 1000 * 1000000⟩ w

/-- The sampling loop of `main`, with the number of samples still to take: `ok`,
the samples on the stack and the world it ends in. -/
def sampleLoop (c : GuardChip) (gap : ℤ) : ℕ → List RawSample → W → (Bool × List RawSample) × W
  | 0, s, w => ((true, s), w)
  | k + 1, s, w =>
    match guardReadSample host c .unset w with
    | ((ret, raw), w) =>
      -- the slot that failed is left as it is, and looked at by nobody
      if ret ≠ 0 then ((false, s ++ [raw]), w)
      else sampleLoop c gap k (s ++ [raw]) (if 0 < k then nap host gap w else w)

/-- The verdict `main` builds for a chip it could not read. -/
def unreadableVerdict (c : GuardChip) : GuardVerdict where
  level := .unknown
  f := [⟨.unknown, .read, 0, 0,
    snprintf 96 ("could not read all channels from ".toList ++ c.path.take 56)⟩]
  room := by simp [guardMaxFindings]

/-- The time between two samples of a chip. -/
def sampleGap (o : Options) (c : GuardChip) : ℤ :=
  if o.interval.val > 0 then o.interval else c.updateIntervalMs

/-- One chip: its samples, then its verdict. No verdict means that an unset slot
was looked at. -/
def checkChip (o : Options) (c : GuardChip) (w : W) : Option GuardVerdict × W :=
  match sampleLoop host c (sampleGap o c) o.samples.val.toNat [] w with
  | ((ok, s), w) =>
    (if ok then (s.mapM RawSample.filled).map (guardEval o.lim) else some (unreadableVerdict c), w)

/-- What `main` prints about a chip. -/
def chipReport (o : Options) (c : GuardChip) (v : GuardVerdict) (first : Bool) : CStr :=
  if o.json then guardReportJson c v o.lim first
  else if !o.quiet || v.level ≠ .ok then guardReportText c v
  else []

/-- The loop of `main` over the chips found: the worst level and the output. -/
def chipLoop (o : Options) :
    List GuardChip → Bool → GuardLevel → CStr → W → Option ((GuardLevel × CStr) × W)
  | [], _, worst, out, w => some ((worst, out), w)
  | c :: cs, first, worst, out, w =>
    match checkChip host o c w with
    | (none, _) => none
    | (some v, w) =>
      chipLoop o cs false (worse guardSeverity worst v.level) (out ++ chipReport o c v first) w

/-- `main` after its option loop. -/
def guardMonitor (o : Options) (w : W) : Option (Outcome × W) :=
  match guardFindChips host o.sysfsRoot guardMaxChips w with
  | (none, w) =>
    some (⟨.unknown, [],
      "UNKNOWN cannot read ".toList ++ o.sysfsRoot ++ "/class/hwmon\n".toList⟩, w)
  | (some [], w) =>
    some (⟨.unknown, [], "UNKNOWN no ".toList ++ guardChipName ++
      " chip found - is the astral-hwmon module loaded?\n".toList⟩, w)
  | (some chips, w) =>
    (chipLoop host o chips true .ok [] w).map fun ((worst, out), w) =>
      (⟨worst, if o.json then "[\n".toList ++ out ++ "\n]\n".toList else out, []⟩, w)

/-- `main`. -/
def guardMain (argv : List CStr) (w : W) : Option (Outcome × W) :=
  match optionLoop version argv.tail .default with
  | .exit out => some (out, w)
  | .run o => guardMonitor host o w

end Astral
