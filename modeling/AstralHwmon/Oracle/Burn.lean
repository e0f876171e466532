import AstralHwmon.Oracle.Load

/-!
# The burn is stopped

`run_burn` and `_stop_burn` (`src/astral_oracle/load.py`), with the child process they
start. A `BurnHost` decides everything else: whether the child has exited when Python
looks at it, or does so while Python waits for it, what the sampler and the other calls
return or raise. It may decide it by anything that has happened, so that the child may
exit at any time, or never.

`Popen` looks at the child before it sends a signal, and sends none to one that has
exited. What it does to the child is a list of events, and the first one that finds it
exited reaps it.
-/

open Effect

namespace Astral.Oracle

/-! ### The child -/

/-- The two signals the child is ended with: `terminate()` and `kill()`. -/
inductive Signal
  | term | kill
  deriving DecidableEq

/-- What Python does with the child: it looks whether it has exited, sends a signal, or
waits for 10 s, after which it has exited or `TimeoutExpired` is raised. -/
inductive ChildEvent
  | poll (exited : Bool)
  | signal (sig : Signal)
  | wait (exited : Bool)
  deriving DecidableEq

/-- The child: whether it was started, whether `returncode` is set, which is to say that
it has exited and been reaped, and what has been done with it. -/
structure Child where
  started : Bool
  reaped : Bool
  events : List ChildEvent

/-- The signals sent, first to last. -/
def Child.signals (c : Child) : List Signal :=
  c.events.filterMap fun
    | .signal sig => some sig
    | _ => none

/-- It has exited and been reaped, or has been sent SIGKILL. -/
def Child.Stopped (c : Child) : Prop :=
  c.reaped = true ∨ .kill ∈ c.signals

variable {V ε Watt α : Type}

/-- What `run_burn` runs on. -/
structure BurnHost (V ε Watt : Type) where
  /-- `BURN_BIN.exists()`. -/
  binExists : V → Bool × V
  /-- `subprocess.Popen`, which may raise. -/
  popen : Eff V (Exc ε) Unit
  /-- Whether a child that was running has exited by now. -/
  exited : V → Bool × V
  /-- Whether a child that was running exits while it is waited for. -/
  exitsInTime : V → Bool × V
  sampler : Eff V (Exc ε) (List PinReading)
  /-- The `try` of `read_power`: `nvidia-smi`, and the number it prints first. -/
  smi : Eff V (Exc ε) Watt
  sleep : ℚ → Eff V (Exc ε) Unit
  monotonic : V → ℚ × V
  round3 : ℚ → ℚ

/-- The world, and the child in it. -/
structure Burn (V : Type) where
  world : V
  child : Child

/-- Before the child is started. -/
def Burn.start (v : V) : Burn V := ⟨v, ⟨false, false, []⟩⟩

/-- A program that has nothing to do with the child. -/
def inWorld (x : Eff V (Exc ε) α) : Eff (Burn V) (Exc ε) α :=
  .of fun s => ((exec x s.world).1, { s with world := (exec x s.world).2 })

variable (host : BurnHost V ε Watt)

/-- `Popen.poll`: whether the child has exited, reaping it if so. -/
def poll : Eff (Burn V) (Exc ε) Bool :=
  .of fun s =>
    if s.child.reaped then (.ok true, s)
    else
      let (exited, v) := host.exited s.world
      (.ok exited,
        ⟨v, { s.child with reaped := exited, events := s.child.events ++ [.poll exited] }⟩)

/-- `Popen.send_signal`, by which `terminate` and `kill` go. -/
def sendSignal (sig : Signal) : Eff (Burn V) (Exc ε) Unit := do
  if ← poll host then return ()
  else .of fun s =>
    (.ok (), { s with child := { s.child with events := s.child.events ++ [.signal sig] } })

/-- `Popen.wait(timeout=10)`: false where it raises `TimeoutExpired`. -/
def wait : Eff (Burn V) (Exc ε) Bool :=
  .of fun s =>
    if s.child.reaped then (.ok true, s)
    else
      let (exited, v) := host.exitsInTime s.world
      (.ok exited,
        ⟨v, { s.child with reaped := exited, events := s.child.events ++ [.wait exited] }⟩)

/-- `proc.kill()` and the wait that follows, whose timeout is suppressed. -/
def killBurn : Eff (Burn V) (Exc ε) Unit := do
  sendSignal host .kill
  let _ ← wait host
  return ()

/-- `_stop_burn`. -/
def stopBurn (immediate : Bool) : Eff (Burn V) (Exc ε) Unit := do
  if ← poll host then return ()
  else if immediate then killBurn host
  else
    sendSignal host .term
    if ← wait host then return ()
    else killBurn host

/-! ### The burn -/

/-- `read_power`, which makes nothing of what it catches. -/
def readPower : Eff V (Exc ε) (Option Watt) :=
  tryCatch (some <$> host.smi) fun
    | .osError | .subprocessError | .valueError | .indexError => pure none
    | e => throw e

/-- What `run_burn` gives to `sample_until`. -/
def burnCallbacks : Callbacks (Burn V) ε ℚ Watt PinReading where
  stop := poll host
  sampler := inWorld host.sampler
  power := some (inWorld (readPower host))
  sleep d := inWorld (host.sleep d)
  monotonic s := ((host.monotonic s.world).1, { s with world := (host.monotonic s.world).2 })
  round3 := host.round3
  milliamps r := r.milliamps

/-- `ABORT_MA`. -/
def abortMa : ℤ := 9500

/-- The child is started, if its program is there. -/
def startBurn : Eff (Burn V) (Exc ε) Unit :=
  .of fun s =>
    let (found, v) := host.binExists s.world
    -- a `FileNotFoundError` is an `OSError`
    if !found then (.error .osError, { s with world := v })
    else
      match exec host.popen v with
      | (.error e, v) => (.error e, { s with world := v })
      | (.ok _, v) => (.ok (), ⟨v, { s.child with started := true }⟩)

/-- `sample_until`, as `run_burn` calls it. -/
def sampleBurn (rounds : ℕ) (s : Burn V) :
    LoopRun (Burn V) (Exc ε) (List (LoadSample ℚ Watt PinReading)) :=
  sampleUntil (burnCallbacks host) abortMa (1 / 2) rounds s

/-- `run_burn`, for a number of rounds of sampling: the `finally` is told by `aborted`
whether there was an exception. -/
def runBurn (rounds : ℕ) (s : Burn V) :
    LoopRun (Burn V) (Exc ε) (List (LoadSample ℚ Watt PinReading)) :=
  match exec (startBurn host) s with
  | (.error e, s) => (some (.error e), s)
  | (.ok _, s) => (sampleBurn host rounds s).finally fun result => stopBurn host result.isNone

/-! ### Stopping a child -/

section Stop

variable (v : V) (started : Bool) (events : List ChildEvent)

theorem poll_reaped : exec (poll host) ⟨v, ⟨started, true, events⟩⟩
    = (.ok true, ⟨v, ⟨started, true, events⟩⟩) := rfl

theorem poll_running : ∃ exited v', exec (poll host) ⟨v, ⟨started, false, events⟩⟩
    = (.ok exited, ⟨v', ⟨started, exited, events ++ [.poll exited]⟩⟩) := ⟨_, _, rfl⟩

theorem wait_running : ∃ exited v', exec (wait host) ⟨v, ⟨started, false, events⟩⟩
    = (.ok exited, ⟨v', ⟨started, exited, events ++ [.wait exited]⟩⟩) := ⟨_, _, rfl⟩

/-- A signal finds the child exited, or is sent. -/
theorem sendSignal_running (sig : Signal) : ∃ v',
    exec (sendSignal host sig) ⟨v, ⟨started, false, events⟩⟩
        = (.ok (), ⟨v', ⟨started, true, events ++ [.poll true]⟩⟩) ∨
      exec (sendSignal host sig) ⟨v, ⟨started, false, events⟩⟩
        = (.ok (), ⟨v', ⟨started, false, events ++ [.poll false, .signal sig]⟩⟩) := by
  obtain ⟨exited, v', hpoll⟩ := poll_running host v started events
  refine ⟨v', ?_⟩
  rw [sendSignal, exec_bind_ok hpoll]
  cases exited with
  | true => exact Or.inl rfl
  | false => exact Or.inr (by simp)

/-- Killing finds the child exited, or sends SIGKILL and waits. -/
theorem killBurn_running : ∃ v' tail reaped,
    exec (killBurn host) ⟨v, ⟨started, false, events⟩⟩
        = (.ok (), ⟨v', ⟨started, reaped, events ++ tail⟩⟩) ∧
      (tail = [.poll true] ∧ reaped = true ∨
        ∃ exited, tail = [.poll false, .signal .kill, .wait exited]) := by
  unfold killBurn
  obtain ⟨v', hkill | hkill⟩ := sendSignal_running host v started events .kill
  · exact ⟨v', [.poll true], true, by rw [exec_bind_ok hkill]; rfl, Or.inl ⟨rfl, rfl⟩⟩
  · obtain ⟨exited, v'', hwait⟩ := wait_running host v' started
      (events ++ [.poll false, .signal .kill])
    refine ⟨v'', [.poll false, .signal .kill, .wait exited], exited, ?_, Or.inr ⟨exited, rfl⟩⟩
    rw [exec_bind_ok hkill, exec_bind_ok hwait, List.append_assoc]
    rfl

/-- What stopping at once does to a running child: it looks, and kills without waiting
first; no signal goes to a child found exited. -/
def KilledAtOnce (tail : List ChildEvent) (reaped : Bool) : Prop :=
  (tail = [.poll true] ∨ tail = [.poll false, .poll true]) ∧ reaped = true ∨
    ∃ exited, tail = [.poll false, .poll false, .signal .kill, .wait exited]

theorem stopBurn_immediate : ∃ v' tail reaped,
    exec (stopBurn host true) ⟨v, ⟨started, false, events⟩⟩
        = (.ok (), ⟨v', ⟨started, reaped, events ++ tail⟩⟩) ∧ KilledAtOnce tail reaped := by
  obtain ⟨exited, v', hpoll⟩ := poll_running host v started events
  unfold stopBurn
  rw [exec_bind_ok hpoll]
  cases exited with
  | true => exact ⟨v', [.poll true], true, rfl, Or.inl ⟨Or.inl rfl, rfl⟩⟩
  | false =>
    obtain ⟨v'', tail, reaped, hkill, htail⟩ :=
      killBurn_running host v' started (events ++ [.poll false])
    refine ⟨v'', .poll false :: tail, reaped, ?_, ?_⟩
    · rw [if_neg (by simp), if_pos rfl, hkill, List.append_assoc]
      rfl
    · rcases htail with ⟨rfl, rfl⟩ | ⟨exited, rfl⟩
      · exact Or.inl ⟨Or.inr rfl, rfl⟩
      · exact Or.inr ⟨exited, rfl⟩

/-- A child that is killed has exited, or has been sent SIGKILL. -/
theorem killBurn_stops : ∃ s, exec (killBurn host) ⟨v, ⟨started, false, events⟩⟩ = (.ok (), s) ∧
    s.child.Stopped := by
  obtain ⟨v', tail, reaped, hkill, htail⟩ := killBurn_running host v started events
  refine ⟨_, hkill, ?_⟩
  rcases htail with ⟨-, hreaped⟩ | ⟨exited, rfl⟩
  · exact Or.inl hreaped
  · exact Or.inr (by simp [Child.signals])

/-- A child that has exited is left alone. -/
theorem stopBurn_reaped (immediate : Bool) :
    exec (stopBurn host immediate) ⟨v, ⟨started, true, events⟩⟩
      = (.ok (), ⟨v, ⟨started, true, events⟩⟩) := by
  rw [stopBurn, exec_bind_ok (poll_reaped host v started events)]
  rfl

/-- At once or not, the child has exited or has been sent SIGKILL: SIGTERM may be ignored,
but then SIGKILL follows. -/
theorem stopBurn_stops (immediate : Bool) (s : Burn V) : ∃ s',
    exec (stopBurn host immediate) s = (.ok (), s') ∧ s'.child.Stopped := by
  obtain ⟨v, ⟨started, _ | _, events⟩⟩ := s
  · obtain ⟨exited, v', hpoll⟩ := poll_running host v started events
    unfold stopBurn
    rw [exec_bind_ok hpoll]
    -- it may have ended by itself, end at the signal, or have to be killed
    cases exited with
    | true => exact ⟨_, rfl, Or.inl rfl⟩
    | false =>
      rw [if_neg (by simp)]
      cases immediate with
      | true => exact killBurn_stops host v' started _
      | false =>
        rw [if_neg (by simp)]
        obtain ⟨v'', hterm | hterm⟩ :=
          sendSignal_running host v' started (events ++ [.poll false]) .term
        · rw [exec_bind_ok hterm]
          exact ⟨_, rfl, Or.inl rfl⟩
        · obtain ⟨exited, v₃, hwait⟩ := wait_running host v'' started
            (events ++ [.poll false] ++ [.poll false, .signal .term])
          rw [exec_bind_ok hterm, exec_bind_ok hwait]
          cases exited with
          | true => exact ⟨_, rfl, Or.inl rfl⟩
          | false => exact killBurn_stops host v₃ started _
  · exact ⟨_, stopBurn_reaped host v started events immediate, Or.inl rfl⟩

end Stop

/-! ### Sampling looks at the child, and no more -/

section Sampling

theorem keeps_inWorld (x : Eff V (Exc ε) α) : Keeps Burn.child (inWorld x) := fun _ => rfl

theorem keeps_judge (interval : ℚ) (readings : List PinReading) :
    Keeps Burn.child (judge (burnCallbacks host) abortMa interval readings) := by
  unfold judge
  split
  · exact keeps_throw _
  · split
    · exact keeps_throw _
    · split
      · exact keeps_inWorld _
      · exact keeps_pure _

theorem keeps_takeSample (interval started : ℚ) (samples : List (LoadSample ℚ Watt PinReading)) :
    Keeps Burn.child (takeSample (burnCallbacks host) abortMa interval started samples) :=
  (keeps_inWorld _).bind fun readings => Keeps.bind (fun _ => rfl) fun _ =>
    (keeps_inWorld _).bind fun _ => (keeps_judge host interval readings).bind fun _ => keeps_pure _

/-- While sampling goes on: the child was started, and has only been looked at. -/
structure Watching (s : Burn V) : Prop where
  started : s.child.started = true
  running : s.child.reaped = false
  signals : s.child.signals = []

/-- When sampling is over: a list is returned when the child has exited, and only then. -/
def Sampled (r : Except (Exc ε) (List (LoadSample ℚ Watt PinReading))) (s : Burn V) : Prop :=
  s.child.started = true ∧ s.child.signals = [] ∧
    match r with
    | .ok _ => s.child.reaped = true
    | .error _ => s.child.reaped = false

/-- A round looks at the child: it goes on, or raises, while the child runs, and is the
last one when the child has exited. -/
theorem sampleRound_watching (started : ℚ) (samples : List (LoadSample ℚ Watt PinReading))
    (s : Burn V) (h : Watching s) :
    RoundKeeps (fun (_ : List (LoadSample ℚ Watt PinReading)) => Watching) Sampled
      (exec (sampleRound (burnCallbacks host) abortMa (1 / 2) started samples) s) := by
  obtain ⟨v, ⟨_, _, events⟩⟩ := s
  obtain ⟨rfl, rfl, hsignals⟩ := h
  obtain ⟨exited, v', hpoll⟩ := poll_running host v true events
  have hstop : exec (burnCallbacks host).stop ⟨v, ⟨true, false, events⟩⟩ = _ := hpoll
  have hsignals' : (⟨true, exited, events ++ [.poll exited]⟩ : Child).signals = [] := by
    rw [Child.signals, List.filterMap_append, List.append_eq_nil_iff]
    exact ⟨hsignals, rfl⟩
  unfold sampleRound
  rw [exec_bind_ok hstop]
  cases exited with
  | true => exact ⟨rfl, hsignals', rfl⟩
  | false =>
    -- the rest of the round does nothing to the child, however it ends
    have htake := keeps_takeSample host (1 / 2) started samples
      ⟨v', ⟨true, false, events ++ [.poll false]⟩⟩
    rw [if_neg (by simp)]
    rcases hexec : exec (takeSample (burnCallbacks host) abortMa (1 / 2) started samples)
        ⟨v', ⟨true, false, events ++ [.poll false]⟩⟩ with ⟨(e | samples'), ⟨v'', child⟩⟩ <;>
      rw [hexec] at htake <;> obtain rfl : child = ⟨true, false, events ++ [.poll false]⟩ := htake
    · rw [exec_bind_error hexec]
      exact ⟨rfl, hsignals', rfl⟩
    · rw [exec_bind_ok hexec]
      exact ⟨rfl, rfl, hsignals'⟩

theorem sampleBurn_spec (rounds : ℕ) {s : Burn V} (h : Watching s) :
    (sampleBurn host rounds s).Meets
      (fun (_ : List (LoadSample ℚ Watt PinReading)) => Watching) Sampled :=
  loop_spec (sampleRound_watching host _) rounds ⟨h.started, h.running, h.signals⟩

end Sampling

/-! ### The burn is stopped -/

section Run

theorem startBurn_cases (v : V) :
    (∃ e v', exec (startBurn host) (.start v) = (.error e, .start v')) ∨
      ∃ v', exec (startBurn host) (.start v) = (.ok (), ⟨v', ⟨true, false, []⟩⟩) := by
  simp only [startBurn, exec_of]
  cases (host.binExists (Burn.start v).world).1 with
  | false => exact Or.inl ⟨.osError, _, rfl⟩
  | true =>
    simp only [Bool.not_true, Bool.false_eq_true, if_false]
    split
    · exact Or.inl ⟨_, _, rfl⟩
    · exact Or.inr ⟨_, rfl⟩

/-- What the `finally` of `run_burn` makes of a child that was sampled. -/
theorem finally_stopBurn {r : Except (Exc ε) (List (LoadSample ℚ Watt PinReading))} {s : Burn V}
    (h : Sampled r s) : ∃ s',
      LoopRun.finally (some r, s) (fun result => stopBurn host result.isNone) = (some r, s') ∧
        s'.child.Stopped ∧
        (∀ e, r = .error e → ∃ tail, s'.child.events = s.child.events ++ tail ∧
          KilledAtOnce tail s'.child.reaped) ∧
        (∀ l, r = .ok l → s' = s) := by
  obtain ⟨v, ⟨_, reaped, events⟩⟩ := s
  obtain ⟨rfl, -, hreaped⟩ := h
  -- with a result the child was waited for; with an exception it is still to be stopped
  cases r with
  | ok l =>
    obtain rfl : reaped = true := hreaped
    refine ⟨_, ?_, Or.inl rfl, fun e he => absurd he (by simp), fun _ _ => rfl⟩
    have hstop := stopBurn_reaped host v true events false
    simp only [LoopRun.finally, Except.toOption, Option.isNone_some, hstop]
  | error e =>
    obtain rfl : reaped = false := hreaped
    obtain ⟨v', tail, reaped, hstop, htail⟩ := stopBurn_immediate host v true events
    obtain ⟨s', hstop', hstopped⟩ := stopBurn_stops host true ⟨v, ⟨true, false, events⟩⟩
    obtain rfl : _ = s' := (Prod.mk.inj (hstop.symm.trans hstop')).2
    refine ⟨_, ?_, hstopped, fun _ _ => ⟨tail, rfl, htail⟩, fun l hl => absurd hl (by simp)⟩
    simp only [LoopRun.finally, Except.toOption, Option.isNone_none, hstop]

/-- How `run_burn` ends does not depend on how many rounds it is run for, if it ends within
them. -/
theorem runBurn_mono {n m : ℕ} {s s' : Burn V}
    {r : Except (Exc ε) (List (LoadSample ℚ Watt PinReading))}
    (h : runBurn host n s = (some r, s')) (hnm : n ≤ m) : runBurn host m s = (some r, s') := by
  unfold runBurn at h ⊢
  split at h
  next => exact h
  next s₀ _ =>
    rcases hsample : sampleBurn host n s₀ with ⟨(_ | r'), s₁⟩
    · rw [hsample] at h
      exact absurd (congrArg Prod.fst h) (by simp [LoopRun.finally])
    · have hmore : sampleBurn host m s₀ = (some r', s₁) := loop_mono hsample hnm
      rw [hsample] at h
      rw [hmore]
      exact h

/-- **`run_burn` never leaves the load running.** However the sampler and the child
behave, once the child was started and `run_burn` has returned or raised,

* the child has exited and been reaped, or has been sent SIGKILL;
* what `run_burn` returns or raises is what the sampling did;
* sampling sends no signal, and if it raised while the child ran, SIGKILL is the first one
  sent, with no wait before it, and none is sent to a child found exited;
* and a list is returned only if the child had exited when sampling was over, and then
  nothing is done to it. -/
theorem runBurn_leavesNothing {rounds : ℕ} {v : V}
    {r : Except (Exc ε) (List (LoadSample ℚ Watt PinReading))} {s' : Burn V}
    (hrun : runBurn host rounds (.start v) = (some r, s'))
    (hstarted : s'.child.started = true) :
    s'.child.Stopped ∧
      ∃ s₀ s, exec (startBurn host) (.start v) = (.ok (), s₀) ∧
        sampleBurn host rounds s₀ = (some r, s) ∧ s.child.signals = [] ∧
        (∀ e, r = .error e → s.child.reaped = false ∧ ∃ tail,
          s'.child.events = s.child.events ++ tail ∧ KilledAtOnce tail s'.child.reaped) ∧
        (∀ l, r = .ok l → s.child.reaped = true ∧ s' = s) := by
  rcases startBurn_cases host v with ⟨e, v', hstart⟩ | ⟨v', hstart⟩
  · -- there is no child
    rw [runBurn, hstart] at hrun
    obtain ⟨-, rfl⟩ := Prod.mk.inj hrun
    exact absurd hstarted (by simp [Burn.start])
  rw [runBurn, hstart] at hrun
  dsimp only at hrun
  have hspec := sampleBurn_spec host rounds (s := ⟨v', ⟨true, false, []⟩⟩) ⟨rfl, rfl, rfl⟩
  rcases hsample : sampleBurn host rounds ⟨v', ⟨true, false, []⟩⟩ with ⟨(_ | r'), s⟩
  · rw [hsample] at hrun
    exact absurd (congrArg Prod.fst hrun) (by simp [LoopRun.finally])
  · rw [hsample] at hrun hspec
    obtain ⟨s'', hfinally, hstopped, hraised, hreturned⟩ := finally_stopBurn host hspec
    obtain ⟨hr, rfl⟩ := Prod.mk.inj (hfinally.symm.trans hrun)
    obtain rfl := Option.some.inj hr
    obtain ⟨-, hsignals, hreaped⟩ := hspec
    refine ⟨hstopped, _, s, hstart, hsample, hsignals, fun e he => ?_, fun l hl => ?_⟩
    · subst he; exact ⟨hreaped, hraised e rfl⟩
    · subst hl; exact ⟨hreaped, hreturned l rfl⟩

end Run

/-- A child that heeds nothing, and a pin at 9.5 A. -/
def stubbornBurn : BurnHost Unit Empty ℤ where
  binExists _ := (true, ())
  popen := pure ()
  exited _ := (false, ())
  exitsInTime _ := (false, ())
  sampler := pure [⟨1, 12000, 9500⟩]
  smi := pure 575
  sleep _ := pure ()
  monotonic _ := (0, ())
  round3 := id

/-- It is killed at the first reading. -/
theorem runBurn_leavesNothing_stubborn : ∃ r s, runBurn stubbornBurn 1 (.start ()) = (some r, s) ∧
    s.child.started = true ∧ s.child.Stopped := by
  have hrun : runBurn stubbornBurn 1 (.start ()) = (some _, _) := rfl
  exact ⟨_, _, hrun, rfl, (runBurn_leavesNothing stubbornBurn hrun rfl).1⟩

end Astral.Oracle
