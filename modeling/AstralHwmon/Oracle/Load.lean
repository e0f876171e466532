import AstralHwmon.Oracle.Decode
import AstralHwmon.Lib.Effect
import Mathlib.Algebra.Ring.Rat

/-!
# The burn's abort

`sample_until` (`src/astral_oracle/load.py`) over arbitrary callbacks: each may do
anything to a state of its own, return anything and raise anything.

`Callbacks.watched` are callbacks that note down their calls, as a test's mocks do, in the
order they are made and with what comes of them. The claim of the module, that a dangerous
current ends the sampling at once, is then one about the calls noted. The round of the loop
takes the reading first, then asks for the power, and looks at the reading last
(`sampleRound`): with a power callback a dangerous reading is followed by a call of it,
every time.
-/

open CText Effect

namespace Astral.Oracle

/-- What a callback, or the code itself, raises. -/
inductive Exc (ε : Type)
  /-- `LoadAbortedError`. -/
  | loadAborted (message : CStr)
  | valueError
  | indexError
  | osError
  | subprocessError
  | other (e : ε)

/-- `LoadSample`. -/
structure LoadSample (τ Watt Reading : Type) where
  elapsed : τ
  readings : List Reading
  watts : Option Watt

variable {σ ε τ Watt Reading : Type}

/-- What `sample_until` is given, and what it uses of `time`. -/
structure Callbacks (σ ε τ Watt Reading : Type) where
  stop : Eff σ (Exc ε) Bool
  sampler : Eff σ (Exc ε) (List Reading)
  power : Option (Eff σ (Exc ε) (Option Watt))
  sleep : τ → Eff σ (Exc ε) Unit
  monotonic : σ → τ × σ
  /-- `round(…, 3)`. -/
  round3 : τ → τ
  milliamps : Reading → ℤ

section Sampling

variable [Sub τ] [Zero τ] [DecidableEq τ] (cb : Callbacks σ ε τ Watt Reading) (abortMa : ℤ)
  (interval : τ)

/-- `time.monotonic()`. -/
def readClock : Eff σ (Exc ε) τ := .of fun s => ((.ok (cb.monotonic s).1), (cb.monotonic s).2)

/-- `power() if power else None`. -/
def askPower : Eff σ (Exc ε) (Option Watt) :=
  match cb.power with
  | some power => power
  | none => pure none

/-- The text of `LoadAbortedError`. -/
def abortMessage (worst abortMa : ℤ) : CStr :=
  "pin at ".toList ++ fmtInt worst ++ " mA reached the ".toList ++ fmtInt abortMa
    ++ " mA abort threshold".toList

/-- What is left of a round once the reading has been noted. -/
def judge (readings : List Reading) : Eff σ (Exc ε) Unit :=
  match (readings.map cb.milliamps).max? with
  -- `max` of nothing
  | none => throw .valueError
  | some worst =>
    if worst ≥ abortMa then throw (.loadAborted (abortMessage worst abortMa))
    else if interval ≠ 0 then cb.sleep interval
    else pure ()

/-- The body of the loop of `sample_until`, with the samples taken before. -/
def takeSample (started : τ) (samples : List (LoadSample τ Watt Reading)) :
    Eff σ (Exc ε) (List (LoadSample τ Watt Reading)) := do
  let readings ← cb.sampler
  let now ← readClock cb
  let watts ← askPower cb
  let samples := samples ++ [⟨cb.round3 (now - started), readings, watts⟩]
  judge cb abortMa interval readings
  return samples

/-- The loop of `sample_until`: `while not stop():`. -/
def sampleRound (started : τ) (samples : List (LoadSample τ Watt Reading)) :
    Eff σ (Exc ε) (List (LoadSample τ Watt Reading) ⊕ List (LoadSample τ Watt Reading)) := do
  if ← cb.stop then return .inr samples
  else return .inl (← takeSample cb abortMa interval started samples)

/-- `sample_until`, for a number of rounds. -/
def sampleUntil (rounds : ℕ) (s : σ) : LoopRun σ (Exc ε) (List (LoadSample τ Watt Reading)) :=
  let (started, s) := cb.monotonic s
  loop (sampleRound cb abortMa interval started) rounds [] s

end Sampling

/-! ### Watching the callbacks -/

/-- A call of a callback, and what came of it. -/
inductive Call (ε Watt Reading : Type)
  | stop (r : Except (Exc ε) Bool)
  | sampler (r : Except (Exc ε) (List Reading))
  | power (r : Except (Exc ε) (Option Watt))
  | sleep (r : Except (Exc ε) Unit)

/-- A state, and the calls made so far. -/
structure Watched (σ ε Watt Reading : Type) where
  state : σ
  calls : List (Call ε Watt Reading)

/-- A callback that notes its calls. -/
def watch {α : Type} (note : Except (Exc ε) α → Call ε Watt Reading) (x : Eff σ (Exc ε) α) :
    Eff (Watched σ ε Watt Reading) (Exc ε) α :=
  .of fun s =>
    let (r, state) := exec x s.state
    (r, ⟨state, s.calls ++ [note r]⟩)

/-- The callbacks, watched. The clock is none of them. -/
def Callbacks.watched (cb : Callbacks σ ε τ Watt Reading) :
    Callbacks (Watched σ ε Watt Reading) ε τ Watt Reading where
  stop := watch .stop cb.stop
  sampler := watch .sampler cb.sampler
  power := cb.power.map (watch .power)
  sleep d := watch .sleep (cb.sleep d)
  monotonic s :=
    let (now, state) := cb.monotonic s.state
    (now, { s with state := state })
  round3 := cb.round3
  milliamps := cb.milliamps

/-! ### What the calls tell -/

section Abort

variable (cb : Callbacks σ ε τ Watt Reading) (abortMa : ℤ)

/-- Some pin is at or above the threshold. -/
def Dangerous (readings : List Reading) : Prop := ∃ r ∈ readings, abortMa ≤ cb.milliamps r

/-- No reading handed over so far is dangerous. -/
def Safe (calls : List (Call ε Watt Reading)) : Prop :=
  ∀ readings, .sampler (.ok readings) ∈ calls → ¬ Dangerous cb abortMa readings

/-- What the calls of the sampler came to, in order. -/
def sampled (calls : List (Call ε Watt Reading)) : List (Except (Exc ε) (List Reading)) :=
  calls.filterMap fun
    | .sampler r => some r
    | _ => none

/-- How the calls of a run that ended stand: no reading was dangerous; or the last one
was, and what follows it is nothing, or a call of `power` if there is one. -/
def Ended (r : Except (Exc ε) (List (LoadSample τ Watt Reading)))
    (s : Watched σ ε Watt Reading) : Prop :=
  (Safe cb abortMa s.calls ∧
    ∀ l, r = .ok l → sampled s.calls = l.map fun sample => .ok sample.readings) ∨
  ∃ pre readings tail, s.calls = pre ++ .sampler (.ok readings) :: tail ∧
    Safe cb abortMa pre ∧ Dangerous cb abortMa readings ∧ (∀ l, r ≠ .ok l) ∧
    (cb.power = none →
      tail = [] ∧ ∃ worst, r = .error (.loadAborted (abortMessage worst abortMa))) ∧
    (cb.power ≠ none → tail ≠ [])

/-- The calls of a run that goes on: every reading was safe, and is in the samples. -/
structure Going (samples : List (LoadSample τ Watt Reading)) (s : Watched σ ε Watt Reading) :
    Prop where
  safe : Safe cb abortMa s.calls
  sampled : sampled s.calls = samples.map fun sample => .ok sample.readings

variable {cb abortMa}

theorem safe_append {l m : List (Call ε Watt Reading)} :
    Safe cb abortMa (l ++ m) ↔ Safe cb abortMa l ∧ Safe cb abortMa m := by
  simp only [Safe, List.mem_append, or_imp, forall_and]

theorem safe_of_not_sampler {l : List (Call ε Watt Reading)}
    (h : ∀ readings, .sampler (.ok readings) ∉ l) : Safe cb abortMa l :=
  fun readings hmem => absurd hmem (h readings)

theorem exec_watch {α : Type} (note : Except (Exc ε) α → Call ε Watt Reading)
    (x : Eff σ (Exc ε) α) (s : Watched σ ε Watt Reading) :
    exec (watch note x) s
      = ((exec x s.state).1, ⟨(exec x s.state).2, s.calls ++ [note (exec x s.state).1]⟩) := rfl

/-- A run that raises with no dangerous reading behind it. -/
theorem ended_error {s : Watched σ ε Watt Reading} (h : Safe cb abortMa s.calls) (e : Exc ε) :
    Ended cb abortMa (.error e) s := Or.inl ⟨h, fun _ hl => absurd hl (by simp)⟩

theorem safe_sampler {readings : List Reading} (h : ¬ Dangerous cb abortMa readings) :
    Safe cb abortMa [(.sampler (.ok readings) : Call ε Watt Reading)] := by
  intro readings' hmem
  obtain rfl : readings' = readings := by simpa using hmem
  exact h

theorem sampled_append (l m : List (Call ε Watt Reading)) :
    sampled (l ++ m) = sampled l ++ sampled m := List.filterMap_append

variable (cb) in
/-- Asking for the power is a call exactly when there is a callback for it. -/
theorem askPower_spec (s : Watched σ ε Watt Reading) : ∃ r tail state,
    exec (askPower cb.watched) s = (r, ⟨state, s.calls ++ tail⟩) ∧
      (∀ readings, .sampler (.ok readings) ∉ tail) ∧ sampled tail = [] ∧
      (cb.power = none → tail = [] ∧ ∃ watts, r = .ok watts) ∧ (cb.power ≠ none → tail ≠ []) := by
  unfold askPower Callbacks.watched
  cases cb.power with
  | none =>
    exact ⟨.ok none, [], s.state, by simp, by simp, rfl, fun _ => ⟨rfl, none, rfl⟩,
      fun h => absurd rfl h⟩
  | some power =>
    exact ⟨_, [.power (exec power s.state).1], _, rfl, by simp, rfl, fun h => absurd h (by simp),
      fun _ => List.cons_ne_nil _ _⟩

section Round

variable [Zero τ] [DecidableEq τ] {interval : τ}

variable (cb abortMa interval) in
/-- **The verdict on a reading**: none on an empty one; the abort, with no call at all, on
a dangerous one; else a sleep, or nothing. -/
theorem judge_cases (readings : List Reading) (s : Watched σ ε Watt Reading) :
    (readings = [] ∧
      exec (judge cb.watched abortMa interval readings) s = (.error .valueError, s)) ∨
    (Dangerous cb abortMa readings ∧ ∃ worst,
      exec (judge cb.watched abortMa interval readings) s
        = (.error (.loadAborted (abortMessage worst abortMa)), s)) ∨
    (¬ Dangerous cb abortMa readings ∧ ∃ r new, (∀ readings, .sampler (.ok readings) ∉ new) ∧
      sampled new = [] ∧
      ∃ state,
        exec (judge cb.watched abortMa interval readings) s = (r, ⟨state, s.calls ++ new⟩)) := by
  have hmilliamps : cb.watched.milliamps = cb.milliamps := rfl
  cases hmax : (readings.map cb.milliamps).max? with
  | none =>
    refine Or.inl ⟨List.map_eq_nil_iff.mp (List.max?_eq_none_iff.mp hmax), ?_⟩
    simp only [judge, hmilliamps, hmax, exec_throw]
  | some worst =>
    obtain ⟨hmem, hle⟩ := List.max?_eq_some_iff.mp hmax
    by_cases hworst : worst ≥ abortMa
    · obtain ⟨r, hr, rfl⟩ := List.mem_map.mp hmem
      refine Or.inr (Or.inl ⟨⟨r, hr, hworst⟩, cb.milliamps r, ?_⟩)
      simp only [judge, hmilliamps, hmax, if_pos hworst, exec_throw]
    · have hsafe : ¬ Dangerous cb abortMa readings := fun ⟨r, hr, hge⟩ =>
        hworst (hge.trans (hle _ (List.mem_map_of_mem hr)))
      refine Or.inr (Or.inr ⟨hsafe, ?_⟩)
      simp only [judge, hmilliamps, hmax, if_neg hworst]
      by_cases hsleep : interval ≠ 0
      · rw [if_pos hsleep]
        exact ⟨_, [.sleep (exec (cb.sleep interval) s.state).1], by simp, rfl, _, rfl⟩
      · rw [if_neg hsleep]
        exact ⟨.ok (), [], by simp, rfl, s.state, by simp⟩

variable [Sub τ] {started : τ} {samples : List (LoadSample τ Watt Reading)}
  {s : Watched σ ε Watt Reading}

variable (interval started) in
/-- A sample is taken, and its reading was safe; or the run ends as `Ended` says. -/
theorem takeSample_spec (h : Going cb abortMa samples s) :
    match exec (takeSample cb.watched abortMa interval started samples) s with
    | (.ok samples', s') => Going cb abortMa samples' s'
    | (.error e, s') => Ended cb abortMa (.error e) s' := by
  have hsampler : exec cb.watched.sampler s = _ := exec_watch .sampler cb.sampler s
  unfold takeSample
  rcases hr : (exec cb.sampler s.state).1 with e | readings <;> rw [hr] at hsampler
  · -- `sampler` raises
    rw [exec_bind_error hsampler]
    exact ended_error (safe_append.mpr ⟨h.safe, safe_of_not_sampler (by simp)⟩) e
  -- the clock is no callback
  obtain ⟨now, state, hclock⟩ : ∃ now state, exec (readClock cb.watched)
      ⟨(exec cb.sampler s.state).2, s.calls ++ [.sampler (.ok readings)]⟩
        = (.ok now, ⟨state, s.calls ++ [.sampler (.ok readings)]⟩) := ⟨_, _, rfl⟩
  obtain ⟨r, tail, state', hpower, htail, hsampled, hnone, hsome⟩ :=
    askPower_spec cb ⟨state, s.calls ++ [.sampler (.ok readings)]⟩
  rw [exec_bind_ok hsampler, exec_bind_ok hclock]
  -- a dangerous reading ends the run, after a call of `power` if there is one
  have hended : ∀ e, Dangerous cb abortMa readings →
      (cb.power = none → ∃ worst, e = .loadAborted (abortMessage worst abortMa)) →
      Ended cb abortMa (.error e) ⟨state', s.calls ++ [.sampler (.ok readings)] ++ tail⟩ :=
    fun e hdanger hworst => Or.inr ⟨s.calls, readings, tail, List.append_assoc _ _ _, h.safe,
      hdanger, fun _ he => absurd he (by simp),
      fun hpow => ⟨(hnone hpow).1, by simpa using hworst hpow⟩,
      hsome⟩
  have hsafe : ¬ Dangerous cb abortMa readings →
      Safe cb abortMa (s.calls ++ [.sampler (.ok readings)] ++ tail) := fun hno =>
    safe_append.mpr ⟨safe_append.mpr ⟨h.safe, safe_sampler hno⟩, safe_of_not_sampler htail⟩
  rcases r with e | watts
  · -- `power` raises, whatever the reading was
    rw [exec_bind_error hpower]
    by_cases hdanger : Dangerous cb abortMa readings
    · exact hended e hdanger fun hpow => by
        obtain ⟨-, watts, hr⟩ := hnone hpow
        exact nomatch hr
    · exact ended_error (hsafe hdanger) e
  rw [exec_bind_ok hpower]
  rcases judge_cases cb abortMa interval readings
      ⟨state', s.calls ++ [.sampler (.ok readings)] ++ tail⟩ with
    ⟨rfl, hjudge⟩ | ⟨hdanger, worst, hjudge⟩ | ⟨hno, r, new, hnew, hsamplednew, state'', hjudge⟩
  · rw [exec_bind_error hjudge]
    exact ended_error (hsafe fun ⟨r, hr, _⟩ => absurd hr List.not_mem_nil) _
  · rw [exec_bind_error hjudge]
    exact hended _ hdanger fun _ => ⟨worst, rfl⟩
  · have hall := safe_append.mpr ⟨hsafe hno, safe_of_not_sampler hnew⟩
    rcases r with e | u
    · -- the sleep raises
      rw [exec_bind_error hjudge]
      exact ended_error hall e
    · rw [exec_bind_ok hjudge]
      refine ⟨hall, ?_⟩
      simp only [sampled_append, h.sampled, hsampled, hsamplednew, List.append_nil, List.map_append]
      rfl

/-- **One round** of the loop takes a safe reading, or ends it as `Ended` says. -/
theorem sampleRound_spec (samples : List (LoadSample τ Watt Reading))
    (s : Watched σ ε Watt Reading) (h : Going cb abortMa samples s) :
    RoundKeeps (Going cb abortMa) (Ended cb abortMa)
      (exec (sampleRound cb.watched abortMa interval started samples) s) := by
  have hstop : exec cb.watched.stop s = _ := exec_watch .stop cb.stop s
  have hsafe : ∀ r, Safe cb abortMa (s.calls ++ [.stop r]) := fun r =>
    safe_append.mpr ⟨h.safe, safe_of_not_sampler (by simp)⟩
  have hsampled : ∀ r,
      sampled (s.calls ++ [.stop r]) = samples.map fun sample => .ok sample.readings :=
    fun r => by rw [sampled_append, h.sampled]; exact List.append_nil _
  unfold sampleRound
  rcases hr : (exec cb.stop s.state).1 with e | (_ | _) <;> rw [hr] at hstop
  · -- `stop` raises
    rw [exec_bind_error hstop]
    exact ended_error (hsafe _) e
  · -- the round goes on
    have htake := takeSample_spec interval started
      (s := ⟨(exec cb.stop s.state).2, s.calls ++ [.stop (.ok false)]⟩)
      ⟨hsafe (.ok false), hsampled (.ok false)⟩
    rw [exec_bind_ok hstop, if_neg (by simp), exec_bind]
    split at htake
    next hexec => rw [hexec]; exact htake
    next hexec => rw [hexec]; exact htake
  · -- `stop` ends the loop
    rw [exec_bind_ok hstop]
    refine Or.inl ⟨hsafe _, fun l hl => ?_⟩
    obtain rfl := Except.ok.inj hl
    exact hsampled _

/-- **How a run stands** after any number of rounds: going on with safe readings, or
ended. -/
theorem sampleUntil_spec (cb : Callbacks σ ε τ Watt Reading) (abortMa : ℤ) (interval : τ)
    (rounds : ℕ) (state : σ) :
    (sampleUntil cb.watched abortMa interval rounds ⟨state, []⟩).Meets (Going cb abortMa)
      (Ended cb abortMa) :=
  loop_spec sampleRound_spec rounds ⟨fun _ hmem => absurd hmem List.not_mem_nil, rfl⟩

end Round

/-! ### The abort -/

variable (cb abortMa) in
/-- A dangerous reading is the last thing a run sees: it raises `LoadAbortedError`, and
calls nothing more. -/
def AbortsAtOnce (o : LoopRun (Watched σ ε Watt Reading) (Exc ε)
    (List (LoadSample τ Watt Reading))) : Prop :=
  ∀ pre readings post, o.2.calls = pre ++ .sampler (.ok readings) :: post →
    Dangerous cb abortMa readings → post = [] ∧
      ∃ worst, o.1 = some (.error (.loadAborted (abortMessage worst abortMa)))

variable (cb abortMa) in
/-- A run that returns has only seen safe readings, and returns them all, in order. -/
def ReturnsSafe (o : LoopRun (Watched σ ε Watt Reading) (Exc ε)
    (List (LoadSample τ Watt Reading))) : Prop :=
  ∀ l, o.1 = some (.ok l) → Safe cb abortMa o.2.calls ∧
    sampled o.2.calls = l.map fun sample => .ok sample.readings

theorem abortsAtOnce_of_safe {o : LoopRun (Watched σ ε Watt Reading) (Exc ε)
    (List (LoadSample τ Watt Reading))} (h : Safe cb abortMa o.2.calls) :
    AbortsAtOnce cb abortMa o := by
  intro pre readings post hcalls hdanger
  refine absurd hdanger (h readings ?_)
  rw [hcalls]
  exact List.mem_append_right _ List.mem_cons_self

theorem Ended.returnsSafe {r : Except (Exc ε) (List (LoadSample τ Watt Reading))}
    {s : Watched σ ε Watt Reading} (h : Ended cb abortMa r s) :
    ReturnsSafe cb abortMa (some r, s) := by
  rintro l ⟨⟩
  rcases h with ⟨hsafe, hreturn⟩ | ⟨-, -, -, -, -, -, hraise, -⟩
  · exact ⟨hsafe, hreturn l rfl⟩
  · exact absurd rfl (hraise l)

/-- Without a power callback, nothing follows a dangerous reading. -/
theorem Ended.abortsAtOnce {r : Except (Exc ε) (List (LoadSample τ Watt Reading))}
    {s : Watched σ ε Watt Reading} (h : Ended cb abortMa r s) (hpower : cb.power = none) :
    AbortsAtOnce cb abortMa (some r, s) := by
  rcases h with ⟨hsafe, -⟩ | ⟨pre, readings, tail, hcalls, hpre, -, -, hnone, -⟩
  · exact abortsAtOnce_of_safe hsafe
  obtain ⟨rfl, worst, rfl⟩ := hnone hpower
  intro pre' readings' post hcalls' hdanger
  refine ⟨?_, worst, rfl⟩
  -- any other place for it is among the calls before the dangerous reading, which are safe
  by_contra hpost
  rw [← List.dropLast_append_getLast hpost, ← List.cons_append, ← List.append_assoc] at hcalls'
  obtain ⟨rfl, -⟩ := List.append_singleton_inj.mp (hcalls.symm.trans hcalls')
  exact hpre readings' (List.mem_append_right _ List.mem_cons_self) hdanger

/-- With a power callback, its call does. -/
theorem Ended.safe_of_abortsAtOnce {r : Except (Exc ε) (List (LoadSample τ Watt Reading))}
    {s : Watched σ ε Watt Reading} (h : Ended cb abortMa r s) (hpower : cb.power ≠ none)
    (habort : AbortsAtOnce cb abortMa (some r, s)) : Safe cb abortMa s.calls := by
  rcases h with ⟨hsafe, -⟩ | ⟨pre, readings, tail, hcalls, -, hdanger, -, -, hsome⟩
  · exact hsafe
  · exact absurd (habort pre readings tail hcalls hdanger).1 (hsome hpower)

/-- **The burn's abort is immediate exactly when nobody asks for the power.** For any
callbacks, threshold and interval: in every run, however long, a dangerous reading is the
last thing that happens and raises `LoadAbortedError`, and what is returned are all the
readings, each of them safe, if and only if there is no power callback or the sampler
never hands a dangerous reading over. -/
theorem sampleUntil_abortsAtOnce [Sub τ] [Zero τ] [DecidableEq τ]
    (cb : Callbacks σ ε τ Watt Reading) (abortMa : ℤ) (interval : τ) (state : σ) :
    (∀ rounds,
        AbortsAtOnce cb abortMa (sampleUntil cb.watched abortMa interval rounds ⟨state, []⟩) ∧
        ReturnsSafe cb abortMa (sampleUntil cb.watched abortMa interval rounds ⟨state, []⟩)) ↔
      cb.power = none ∨
        ∀ rounds, Safe cb abortMa
          (sampleUntil cb.watched abortMa interval rounds ⟨state, []⟩).2.calls := by
  have hspec := fun rounds => sampleUntil_spec cb abortMa interval rounds state
  constructor
  · intro h
    by_cases hpower : cb.power = none
    · exact Or.inl hpower
    refine Or.inr fun rounds => ?_
    have hrun := hspec rounds
    obtain ⟨habort, -⟩ := h rounds
    -- the loop is still going, or it has ended with a result or an exception
    rcases hexec : sampleUntil cb.watched abortMa interval rounds ⟨state, []⟩ with ⟨(_ | r), s⟩
    · rw [hexec] at hrun
      obtain ⟨_, hgoing⟩ := hrun
      exact hgoing.safe
    · rw [hexec] at hrun habort
      exact Ended.safe_of_abortsAtOnce hrun hpower habort
  · intro h rounds
    have hrun := hspec rounds
    have hsafe := h.imp_right fun hall => hall rounds
    rcases hexec : sampleUntil cb.watched abortMa interval rounds ⟨state, []⟩ with ⟨(_ | r), s⟩
    · rw [hexec] at hrun
      obtain ⟨_, hgoing⟩ := hrun
      exact ⟨abortsAtOnce_of_safe hgoing.safe, fun l hl => absurd hl (by simp)⟩
    · rw [hexec] at hrun hsafe
      refine ⟨?_, Ended.returnsSafe hrun⟩
      rcases hsafe with hpower | hsafe
      · exact Ended.abortsAtOnce hrun hpower
      · exact abortsAtOnce_of_safe hsafe

/-- A sampler that sees 9.5 A on a pin at once, with a callback for the power. -/
def hotPin : Callbacks Unit Empty ℤ ℤ PinReading where
  stop := pure false
  sampler := pure [⟨1, 12000, 9500⟩]
  power := some (pure (some 575))
  sleep _ := pure ()
  monotonic _ := (0, ())
  round3 := id
  milliamps r := r.milliamps

/-- The power is asked for after the dangerous reading. -/
theorem sampleUntil_hotPin : ¬ ∀ rounds,
    AbortsAtOnce hotPin 9500 (sampleUntil hotPin.watched 9500 0 rounds ⟨(), []⟩) ∧
      ReturnsSafe hotPin 9500 (sampleUntil hotPin.watched 9500 0 rounds ⟨(), []⟩) := by
  intro h
  obtain ⟨habort, -⟩ := h 1
  have hcalls : (sampleUntil hotPin.watched 9500 0 1 ⟨(), []⟩).2.calls
      = [.stop (.ok false)] ++ .sampler (.ok [⟨1, 12000, 9500⟩]) :: [.power (.ok (some 575))] := rfl
  have hdanger : Dangerous hotPin 9500 [⟨1, 12000, 9500⟩] := ⟨_, List.mem_cons_self, le_rfl⟩
  exact absurd (habort _ _ _ hcalls hdanger).1 (List.cons_ne_nil _ _)

end Abort

end Astral.Oracle
