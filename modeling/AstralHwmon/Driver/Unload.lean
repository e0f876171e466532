import AstralHwmon.Driver.RetryCycle

/-!
# `rmmod` returns, and leaves nothing behind

`astral_exit` waits twice: `bus_unregister_notifier` for the callbacks in progress, and
`cancel_delayed_work_sync` for a run of the worker, which may be anywhere in a probe pass.
What it waits for never waits in turn, so some step towards the end of the unload is enabled
all the way (`next_unloads`), and `St.unloadLeft` counts how many of them there can still be.
Only a notification that arms the work once more, while the notifier is still on the chain,
adds to that.

Once it has returned the module's text is freed, so no code of it may run again. `Gone` is the
state it leaves: no thread, nothing queued, no callback, and no client that a reader of its
hwmon device could still go through. The last part is `Covered`: the one client there can be is
in somebody's hand, or the pointer is on it. That a pointer is never left dangling is not needed
for it, so it holds in every run.
-/

open Transition

namespace Astral

variable {P : Setup}

/-! ### What the unload waits for -/

/-- The step towards the end of the unload; `env` is what a step of the worker meets. -/
def St.unloads (s : St) (env : Env) : Action :=
  match s.exit with
  | .unregisterNotifier => if s.sh.rearms = 0 then .exit else .rearm
  | .wait => if s.worker = .idle then .exit else .worker env
  | _ => .exit

/-- The steps that lead there: those of `astral_exit`, and those of what it waits for. -/
def Unloads (s : St) : Action → Prop
  | .exit => True
  | .rearm => s.exit = .unregisterNotifier
  | .worker _ => s.exit = .wait
  | _ => False

instance (s : St) (a : Action) : Decidable (Unloads s a) :=
  match a with
  | .exit => inferInstanceAs (Decidable True)
  | .rearm | .worker _ => inferInstanceAs (Decidable (_ = _))
  | .addAdapter .. | .notifyAdd _ | .removeAdapter _ | .hwmonRead .. | .init _ | .workerStart
  | .exitStart => inferInstanceAs (Decidable False)

/-! ### How much is left -/

/-- The longest way to the release of the claim. -/
def ClaimedPc.left : ClaimedPc → ℕ
  | .walk => 10
  | .get _ => 9
  | .gate _ => 8
  | .publish _ => 7
  | .alloc _ => 6
  | .refresh _ => 5
  | .register _ => 4
  | .unpublish _ => 3
  | .unregister _ => 2
  | .settle _ => 1

/-- The steps a pass can still take. -/
def PassPc.left : PassPc → ℕ
  | .claim => 12
  | .claimed pc => pc.left + 1
  | .put | .returned => 1

/-- The steps a run of the worker can still take. -/
def WorkerPc.left : WorkerPc → ℕ
  | .idle => 0
  | .pass call => call.pc.left + 3
  | .attached _ => 3
  | .count _ => 2
  | .retry .. => 1

/-- The steps towards the end of the unload there can still be, if nothing is armed any more. -/
def ExitPc.left (rearms : ℕ) (worker : WorkerPc) : ExitPc → ℕ
  | .idle => 0
  -- the worker may be at its first step again by the time it is waited for
  | .unregisterNotifier => rearms + 21
  | .cancel => 20
  | .wait => worker.left + 4
  | .release => 3
  | .unregister _ => 2
  | .clear => 1
  | .done => 0

/-- The steps up to the return of `astral_exit`, at most. -/
def St.unloadLeft (s : St) : ℕ := s.exit.left s.sh.rearms s.worker

theorem ClaimedPc.left_le (pc : ClaimedPc) : pc.left ≤ 10 := by
  cases pc <;> simp [ClaimedPc.left]

theorem ClaimedPc.left_pos (pc : ClaimedPc) : 0 < pc.left := by
  cases pc <;> simp [ClaimedPc.left]

theorem WorkerPc.left_le (worker : WorkerPc) : worker.left ≤ 15 := by
  cases worker with
  | pass call =>
    cases hpc : call.pc with
    | claimed pc =>
      have hpos := pc.left_le
      simp only [WorkerPc.left, hpc, PassPc.left]
      omega
    | claim | put | returned => simp [WorkerPc.left, hpc, PassPc.left]
  | idle | attached | count | retry => simp [WorkerPc.left]

@[simp] theorem WorkerPc.left_afterPass (call : Pass) :
    (WorkerPc.afterPass call).left ≤ call.pc.left + 3 := by
  unfold WorkerPc.afterPass
  split_ifs
  · exact Nat.le_add_left _ _
  · exact le_rfl

/-- No position of the claimed part comes round again. -/
theorem ClaimedStep.left {sh sh' : Shared} {env : Env} {pc pc' : ClaimedPc}
    (h : ClaimedStep P sh env pc sh' (some pc')) : pc'.left < pc.left := by
  cases h <;> simp [ClaimedPc.left]

theorem PassStep.left {sh sh' : Shared} {env : Env} {call call' : Pass}
    (h : PassStep P sh env call sh' call') :
    (WorkerPc.afterPass call').left < call.pc.left + 3 := by
  have hafter := WorkerPc.left_afterPass call'
  cases h with
  | blocked | claim =>
    refine hafter.trans_lt ?_
    simp [PassPc.left, ClaimedPc.left]
  | claimed hstep =>
    refine hafter.trans_lt ?_
    have hleft := hstep.left
    simp only [PassPc.left]
    omega
  | @release pc =>
    refine hafter.trans_lt ?_
    have hpos := pc.left_pos
    simp only [PassPc.left]
    omega
  | put | returned => simp [WorkerPc.afterPass, WorkerPc.left, PassPc.left]

/-- A step of the worker leaves it fewer. -/
theorem Step.worker_left {s s' : St} {env : Env} (h : Step P s (.worker env) s') :
    s'.worker.left < s.worker.left := by
  cases h with
  | core hstep => cases hstep
  | workerPass hworker hstep =>
    rw [hworker]
    exact hstep.left
  | workerAttached hworker | workerNotAttached hworker | workerCount hworker
  | workerRetry hworker | workerGiveUp hworker =>
    rw [hworker]
    simp [WorkerPc.left]

/-! ### Never stuck -/

/-- The worker waits for nothing. -/
theorem WorkerPc.step_isSome (sh : Shared) (env : Env) {worker : WorkerPc}
    (hworker : worker ≠ .idle) : ∃ r, worker.step P sh env = some r := by
  cases worker with
  | idle => exact absurd rfl hworker
  | retry scan attempts report =>
    simp only [WorkerPc.step]
    split_ifs <;> exact ⟨_, rfl⟩
  | pass | attached | count => exact ⟨_, rfl⟩

/-- **What the unload waits for is enabled.** -/
theorem next_unloads {s : St} (hstart : s.exit ≠ .idle) (hdone : s.exit ≠ .done) (env : Env) :
    ∃ s', next P s (s.unloads env) = some s' := by
  cases hexit : s.exit with
  | idle => exact absurd hexit hstart
  | done => exact absurd hexit hdone
  | unregisterNotifier =>
    by_cases hrearms : s.sh.rearms = 0
    · simp [St.unloads, hexit, hrearms, next, ExitPc.step]
    · simp [St.unloads, hexit, hrearms, next]
  | wait =>
    by_cases hworker : s.worker = .idle
    · simp [St.unloads, hexit, hworker, next, ExitPc.step]
    · obtain ⟨r, hr⟩ := WorkerPc.step_isSome (P := P) s.sh env hworker
      simp [St.unloads, hexit, hworker, next, hr]
  | release =>
    cases hclient : s.sh.astralClient <;> simp [St.unloads, hexit, next, ExitPc.step, hclient]
  | cancel | unregister | clear => simp [St.unloads, hexit, next, ExitPc.step]

/-! ### Nearer with every step -/

/-- A callback on its way is one more to wait for. -/
theorem ExitPc.left_succ (rearms : ℕ) (worker : WorkerPc) (exit : ExitPc) :
    exit.left (rearms + 1) worker ≤ exit.left rearms worker + 1 := by
  cases exit with
  | unregisterNotifier => simp only [ExitPc.left]; omega
  | _ => exact Nat.le_succ _

/-- The worker counts only once it is waited for. -/
theorem ExitPc.left_worker {rearms : ℕ} {worker worker' : WorkerPc} {exit : ExitPc}
    (h : exit ≠ .wait) : exit.left rearms worker' = exit.left rearms worker := by
  cases exit with
  | wait => exact absurd rfl h
  | _ => rfl

/-- A callback is in progress only up to `bus_unregister_notifier`. -/
theorem Control.unregistering {s : St} (hc : Control s) (hstart : s.exit ≠ .idle)
    (hrearms : s.sh.rearms ≠ 0) : s.exit = .unregisterNotifier := by
  cases hexit : s.exit with
  | idle => exact absurd hexit hstart
  | unregisterNotifier => rfl
  | _ => exact absurd (hc.deaf (by rw [hexit]; rfl)).2 hrearms

/-- Only a notification that arms the work puts a callback on its way. -/
theorem rearms_of_grown {s s' : St} {a : Action} (hnext : next P s a = some s')
    (hgrown : s'.sh.rearms = s.sh.rearms + 1) : Rearms P s a := by
  by_contra hquiet
  have hle := next_rearms_le hnext hquiet
  omega

theorem CoreStep.unloadLeft {s : St} {a : Action} {sh' : Shared} (hc : Control s)
    (hstart : s.exit ≠ .idle) (h : CoreStep P s.sh a sh')
    (hnext : next P s a = some { s with sh := sh' }) :
    s.exit.left sh'.rearms s.worker + (if Unloads s a then 1 else 0) ≤
      s.exit.left s.sh.rearms s.worker + if Rearms P s a then 1 else 0 := by
  cases h with
  | addAdapter | notifyIgnored | hwmonRead => exact Nat.le_add_right _ _
  | removeAdapter =>
    rw [Shared.delAdapter_rearms]
    exact Nat.le_add_right _ _
  | @notifyAdd adap hadding hon hclient =>
    rw [if_neg (show ¬ Unloads s (.notifyAdd adap) from not_false),
      if_pos (rearms_of_grown hnext rfl)]
    exact ExitPc.left_succ _ _ _
  | rearm hne =>
    have hexit := hc.unregistering hstart hne
    rw [if_pos (show Unloads s .rearm from hexit), hexit]
    simp only [ExitPc.left]
    omega

theorem Step.worker_unloadLeft {s s' : St} {env : Env} (h : Step P s (.worker env) s') :
    s'.unloadLeft + (if s.exit = .wait then 1 else 0) ≤ s.unloadLeft := by
  have hworker := h.worker_left
  have hrest : s'.exit = s.exit ∧ s'.sh.rearms = s.sh.rearms := by
    cases h with
    | core hstep => cases hstep
    | workerPass _ hstep => exact ⟨rfl, hstep.frame.rearms⟩
    | _ => exact ⟨rfl, rfl⟩
  unfold St.unloadLeft
  rw [hrest.1, hrest.2]
  by_cases hexit : s.exit = .wait
  · rw [if_pos hexit, hexit]
    simp only [ExitPc.left]
    omega
  · rw [if_neg hexit, ExitPc.left_worker hexit, Nat.add_zero]

theorem Step.exit_unloadLeft {s s' : St} (h : Step P s .exit s') :
    s'.unloadLeft + 1 ≤ s.unloadLeft := by
  have hworker := s.worker.left_le
  unfold St.unloadLeft
  cases h with
  | core hstep => cases hstep
  | unregisterNotifier hexit | cancel hexit | wait hexit | release hexit | nothingToRelease hexit
  | exitUnregister hexit | clear hexit =>
    rw [hexit]
    simp only [ExitPc.left]
    omega

/-- **Every step towards the end brings it nearer**, and only a notification that arms the
work puts it off, by one step. -/
theorem next_unloadLeft {s s' : St} {a : Action} (hc : Control s) (hstart : s.exit ≠ .idle)
    (hnext : next P s a = some s') :
    s'.unloadLeft + (if Unloads s a then 1 else 0) ≤
      s.unloadLeft + if Rearms P s a then 1 else 0 := by
  have hstep := Step.of_next hnext
  have hinit := hstep.not_init (hc.exiting hstart)
  cases hstep with
  | core hcore => exact hcore.unloadLeft hc hstart hnext
  | refuse | cardPresent | registerNotifier | initPass | initAttached | initNotAttached
  | initSchedule => exact absurd rfl (hinit _)
  | workerStart hpending hworker =>
    -- nothing is queued while the worker is waited for
    have hexit : s.exit ≠ .wait := fun hwait =>
      absurd (hc.canceled hwait).1 (by simp [hpending])
    exact (ExitPc.left_worker hexit).le
  | exitStart _ hexit => exact absurd hexit hstart
  | workerPass | workerAttached | workerNotAttached | workerCount | workerRetry | workerGiveUp =>
    exact (Step.of_next hnext).worker_unloadLeft
  | unregisterNotifier | cancel | wait | release | nothingToRelease | exitUnregister | clear =>
    exact (Step.of_next hnext).exit_unloadLeft

theorem St.unloadLeft_le (s : St) : s.unloadLeft ≤ s.sh.rearms + 21 := by
  have hworker := s.worker.left_le
  unfold St.unloadLeft
  cases s.exit <;> simp only [ExitPc.left] <;> omega

theorem St.unloadLeft_pos {s : St} (hstart : s.exit ≠ .idle) (hdone : s.exit ≠ .done) :
    0 < s.unloadLeft := by
  unfold St.unloadLeft
  cases hexit : s.exit with
  | idle => exact absurd hexit hstart
  | done => exact absurd hexit hdone
  | _ => exact Nat.succ_pos _

/-- What is known of a module on its way out. -/
def Unloading (s : St) : Prop := Control s ∧ s.exit ≠ .idle

theorem Unloading.step {s s' : St} {a : Action} (h : Unloading s)
    (hnext : (lifecycle P).step s a s') : Unloading s' := by
  have hstep : Step P s a s' := Step.of_next hnext
  exact ⟨h.1.step hstep, fun hidle => h.2 (hstep.exit_idle hidle)⟩

theorem St.unloads_spec {s : St} (env : Env) : Unloads s (s.unloads env) := by
  unfold St.unloads
  cases hexit : s.exit with
  | unregisterNotifier =>
    by_cases hrearms : s.sh.rearms = 0
    · simp [hrearms, Unloads]
    · simp [hrearms, Unloads, hexit]
  | wait =>
    by_cases hworker : s.worker = .idle
    · simp [hworker, Unloads]
    · simp [hworker, Unloads, hexit]
  | _ => exact trivial

/-- **`rmmod` returns.** Whatever else happens once `astral_exit` has been called, and wherever
the worker and the notifier's callbacks are by then, it is never stuck: until it has returned,
the step it waits for is enabled. And of these steps no run has more than 21, with one for each
callback in progress when the run starts and one for each notification that arms the work again
before the notifier is off the chain; the last of them is the return. -/
theorem astral_unload_returns {s t : St} {l : List (St × Action)}
    (h : Reachable (lifecycle P) s) (hstart : s.exit ≠ .idle) (hp : Run (lifecycle P) s l t) :
    (t.exit ≠ .done → ∀ env, Unloads t (t.unloads env) ∧
      ∃ u, next P t (t.unloads env) = some u) ∧
    countSteps Unloads l + (if t.exit = .done then 0 else 1) ≤
      s.sh.rearms + 21 + countSteps (Rearms P) l := by
  have hs : Unloading s := ⟨control_reachable h, hstart⟩
  have hstart' : t.exit ≠ .idle := by
    refine (Run.history (J := fun _ t => Unloading t) hs ?_ hp).2
    exact fun _ _ _ _ _ ht hstep => ht.step hstep
  refine ⟨fun hdone env => ⟨St.unloads_spec env, next_unloads hstart' hdone env⟩, ?_⟩
  -- each step of the unload spends one of what is left, and a notification adds one
  have hspend (u : St) (a : Action) (v : St) (hu : Unloading u) (hstep : next P u a = some v) :
      v.unloadLeft + (if Unloads u a then 1 else 0) ≤
        u.unloadLeft + if Rearms P u a then 1 else 0 :=
    next_unloadLeft hu.1 hu.2 hstep
  have hspent : t.unloadLeft + countSteps Unloads l ≤ s.unloadLeft + countSteps (Rearms P) l :=
    Run.potential (fun _ _ _ hu hstep => hu.step hstep) hspend hs hp
  have hle := s.unloadLeft_le
  split_ifs with hdone
  · omega
  -- short of the return there is still a step left
  · have hpos := St.unloadLeft_pos hstart' hdone
    omega

/-- `rmmod` while the worker's pass holds the claim, and a callback of the notifier is about to
arm the work. -/
def rmmodBusy : List Action :=
  otherArrives ++ .workerStart :: List.replicate 3 (.worker .idle) ++
    [.notifyAdd (otherAdapter 1 2), .exitStart]

/-- The callback, the notifier and the cancelling are behind it, and the worker is waited for
while it attaches a chip. -/
theorem astral_unload_returns_busy :
    ∃ (s t u : St) (l : List (St × Action)), Reachable (lifecycle oneCard) s ∧
      Run (lifecycle oneCard) s l t ∧ s.sh.rearms = 1 ∧ t.exit = .wait ∧
      next oneCard t (.worker .idle) = some u ∧ countSteps Unloads l + 1 ≤ 22 := by
  have hrun : (System.exec (next oneCard) St.boot rmmodBusy).any (fun s =>
      decide (s.exit ≠ .idle ∧ s.sh.rearms = 1) &&
        (System.execBy (next oneCard) (fun s a => ¬ Rearms oneCard s a) s
          (.rearm :: .exit :: .exit :: List.replicate 4 (.worker .idle))).any fun t =>
            decide (t.exit = .wait ∧ t.worker ≠ .idle)) = true := by
    decide +kernel
  obtain ⟨s, hexec, ⟨hstart, hrearms⟩, hs⟩ := System.any_decide_and_iff.mp hrun
  obtain ⟨t, hexect, hwait, hworker⟩ := System.any_decide_iff.mp hs
  obtain ⟨l, hp, hquiet⟩ := System.execBy_run hexect
  have hreach : Reachable (lifecycle oneCard) s := System.exec_reachable rfl hexec
  obtain ⟨hnext, hle⟩ := astral_unload_returns (P := oneCard) hreach hstart hp
  obtain ⟨-, u, hu⟩ := hnext (by simp [hwait]) .idle
  -- `astral_exit` waits in `cancel_delayed_work_sync`, so the step is the worker's
  have hunloads : t.unloads .idle = .worker .idle := by simp [St.unloads, hwait, hworker]
  have hnone : countSteps (Rearms oneCard) l = 0 :=
    List.countP_eq_zero.mpr fun x hx => by simpa using hquiet x hx
  rw [hnone, hrearms, if_neg (by simp [hwait])] at hle
  exact ⟨s, t, u, l, hreach, hp, hrearms, hwait, hunloads ▸ hu, hle⟩

/-! ### No client left behind -/

/-- Somebody is going to let go of the client: the pass that has it in hand, `astral_exit` when
it has decided on it, or whichever of them looks at the pointer next. -/
def Kept (o : Own) (client : I2cClient) : Prop :=
  match o.flight with
  | some (.publish held) | some (.unpublish held) | some (.unregister held) => held = client
  | some (.alloc held) | some (.refresh held) | some (.register held)
  | some (.settle (some held)) => held = client ∧ o.sh.astralClient = some client
  | some _ => False
  | none =>
    match o.exit with
    | .unregister held => held = client
    | .clear | .done => False
    | _ => o.sh.astralClient = some client

/-- The driver leaves no client behind. Unlike ownership this holds of a dangling pointer too. -/
def Covered (o : Own) : Prop :=
  o.sh.clients = [] ∨ ∃ client, o.sh.clients = [client] ∧ Kept o client

theorem Kept.of_undecided {o : Own} {client : I2cClient} (hflight : o.flight = none)
    (hexit : o.exit.undecided = true) : Kept o client ↔ o.sh.astralClient = some client := by
  unfold Kept
  rw [hflight]
  cases h : o.exit with
  | unregister | clear | done => exact absurd hexit (by simp [h, ExitPc.undecided])
  | _ => exact Iff.rfl

theorem Kept.congr {o o' : Own} {client : I2cClient} (h : Kept o client)
    (hflight : o'.flight = o.flight) (hptr : o'.sh.astralClient = o.sh.astralClient)
    (hexit : o'.exit = o.exit ∨ o.exit.undecided = true ∧ o'.exit.undecided = true) :
    Kept o' client := by
  rcases hexit with hexit | ⟨hold, hnew⟩
  · unfold Kept at h ⊢
    rw [hflight, hexit, hptr]
    exact h
  cases hpos : o.flight with
  | none =>
    rw [Kept.of_undecided (hflight.trans hpos) hnew, hptr]
    exact (Kept.of_undecided hpos hold).mp h
  | some pc =>
    -- `astral_exit` has no say while a pass is in flight
    unfold Kept at h ⊢
    rw [hflight, hptr]
    rw [hpos] at h ⊢
    rcases pc with _ | _ | _ | _ | _ | _ | _ | _ | _ | (_ | _) <;> exact h

theorem Covered.congr {o o' : Own} (h : Covered o) (hclients : o'.sh.clients = o.sh.clients)
    (hflight : o'.flight = o.flight) (hptr : o'.sh.astralClient = o.sh.astralClient)
    (hexit : o'.exit = o.exit ∨ o.exit.undecided = true ∧ o'.exit.undecided = true) :
    Covered o' := by
  rcases h with hnil | ⟨client, hone, hkept⟩
  · exact Or.inl (hclients.trans hnil)
  · exact Or.inr ⟨client, hclients.trans hone, hkept.congr hflight hptr hexit⟩

/-- The pointer of a client that is deleted may go with it. -/
theorem Covered.core {o : Own} {a : Action} {sh' : Shared} (h : Covered o)
    (hstep : CoreStep P o.sh a sh') : Covered { o with sh := sh' } := by
  cases hstep with
  | addAdapter | notifyIgnored | notifyAdd | rearm | hwmonRead =>
    exact h.congr rfl rfl rfl (Or.inl rfl)
  | @removeAdapter adap =>
    have hmost : ∃ client, o.sh.AtMost client := by
      rcases h with hnil | ⟨client, hone, -⟩
      · exact ⟨⟨0, adap, 0⟩, Or.inl hnil⟩
      · exact ⟨client, Or.inr hone⟩
    obtain ⟨client, hmost⟩ := hmost
    rcases hmost.delAdapter adap with heq | ⟨-, -, heq⟩
    · rw [heq]
      exact h.congr rfl rfl rfl (Or.inl rfl)
    · rw [heq]
      exact Or.inl rfl

/-- Whatever it meets, a pass hands its client on to the pointer or lets go of it. -/
theorem Covered.pass {o : Own} {env : Env} {pc : ClaimedPc} {sh' : Shared}
    {pc' : Option ClaimedPc} (h : Covered o) (hflight : o.flight = some pc)
    (hexit : o.exit.quiet = false) (hstep : ClaimedStep P o.sh env pc sh' pc') :
    Covered { o with sh := sh', flight := pc' } := by
  -- no client yet, or the one client and the position that keeps it
  rcases h with hnil | ⟨owner, hone, hkept⟩
  · cases hstep with
    | @create adap => exact Or.inr ⟨_, by rw [hnil], rfl⟩
    | unregister =>
      rw [Shared.i2cUnregisterDevice_eq]
      exact Or.inl (by simp [hnil])
    | _ => exact Or.inl hnil
  · simp only [Kept, hflight] at hkept
    cases hstep with
    | walk | found | notFound | create | notCreated | failed => exact hkept.elim
    | publish =>
      obtain rfl := hkept
      exact Or.inr ⟨_, hone, rfl, rfl⟩
    | alloc | read | register => exact Or.inr ⟨_, hone, hkept⟩
    | allocFail | readFail | registerFail => exact Or.inr ⟨_, hone, hkept.1⟩
    | unpublish | unpublished => exact Or.inr ⟨_, hone, hkept⟩
    | unregister =>
      obtain rfl := hkept
      rw [Shared.i2cUnregisterDevice_eq]
      exact Or.inl (by simp [hone])
    | settled =>
      -- from here on the pointer is all there is
      refine Or.inr ⟨owner, hone, (Kept.of_undecided rfl ?_).mpr hkept.2⟩
      exact ExitPc.undecided_of_not_quiet hexit

theorem Covered.move {o o' : Own} {a : Action} {act : Option (ClaimedPc × Env)}
    (h : Covered o) (hmove : Move P o a act o') : Covered o' := by
  cases hmove with
  | core hstep => exact h.core hstep
  | control hexit => exact h.congr rfl rfl rfl hexit
  | load => exact h.congr rfl rfl rfl (Or.inl rfl)
  | unload hexit => exact h.congr rfl rfl rfl (Or.inr ⟨by rw [hexit]; rfl, rfl⟩)
  | claim hflight hexit hclient =>
    -- no pointer and no pass, so no client
    refine Or.inl ?_
    rcases h with hnil | ⟨client, -, hkept⟩
    · exact hnil
    · rw [Kept.of_undecided hflight (ExitPc.undecided_of_not_quiet hexit), hclient] at hkept
      exact absurd hkept (by simp)
  | pass hflight hexit hstep => exact h.pass hflight hexit hstep
  -- what `astral_exit` reads is the pointer that kept the client
  | @release client hflight hn hexit hclient =>
    rcases h with hnil | ⟨client', hone, hkept⟩
    · exact Or.inl hnil
    · rw [Kept.of_undecided hflight (by rw [hexit]; rfl), hclient] at hkept
      refine Or.inr ⟨client', hone, ?_⟩
      simp only [Kept, hflight]
      exact Option.some.inj hkept
  | nothingToRelease hflight hexit hclient =>
    refine Or.inl ?_
    rcases h with hnil | ⟨client, -, hkept⟩
    · exact hnil
    · rw [Kept.of_undecided hflight (by rw [hexit]; rfl), hclient] at hkept
      exact absurd hkept (by simp)
  -- and it unregisters that one
  | @unregister client hflight hn hexit =>
    rw [Shared.i2cUnregisterDevice_eq]
    refine Or.inl ?_
    rcases h with hnil | ⟨client', hone, hkept⟩
    · simp [hnil]
    · obtain rfl : client = client' := by simpa only [Kept, hflight, hexit] using hkept
      simp [hone]
  | clear hflight hexit =>
    refine Or.inl ?_
    rcases h with hnil | ⟨client, -, hkept⟩
    · exact hnil
    · simp [Kept, hflight, hexit] at hkept

theorem covered_reachable {s : St} (h : Reachable (lifecycle P) s) : Covered s.own :=
  own_invariant_reachable (Or.inl rfl) (fun _ _ _ hI hmove => hI.move hmove) h

/-! ### The module is gone -/

/-- The action runs code of the module. A notification does while the notifier is on the
chain, a read of a hwmon device always does. -/
def RunsModule (s : St) : Action → Prop
  | .addAdapter .. => False
  | .notifyAdd _ | .removeAdapter _ => s.sh.notifier = true
  | _ => True

/-- The module has left the machine. -/
structure Gone (s : St) : Prop where
  init : s.init = .done
  exit : s.exit = .done
  worker : s.worker = .idle
  pending : s.sh.pending = false
  notifier : s.sh.notifier = false
  rearms : s.sh.rearms = 0
  clients : s.sh.clients = []

theorem gone_of_done {s : St} (h : Reachable (lifecycle P) s) (hexit : s.exit = .done) :
    Gone s := by
  have hc := control_reachable h
  have hinit : s.init = .done := hc.exiting (by simp [hexit])
  obtain ⟨hworker, hpending⟩ := hc.quiet (hexit ▸ rfl)
  obtain ⟨hnotifier, hrearms⟩ := hc.deaf (hexit ▸ rfl)
  have hclients : s.sh.clients = [] := by
    rcases covered_reachable h with hnil | ⟨client, -, hkept⟩
    · exact hnil
    · -- with every thread at its end nobody is left to keep a client
      simp [Kept, St.own, St.flight, hinit, hworker, hexit, InitPc.claimed, WorkerPc.claimed]
        at hkept
  exact ⟨hinit, hexit, hworker, hpending, hnotifier, hrearms, hclients⟩

/-- What the i2c core keeps of its own; the rest is the driver's. -/
def St.withCore (s t : St) : St :=
  { s with sh := { s.sh with
      adapters := t.sh.adapters
      adding := t.sh.adding
      nextObj := t.sh.nextObj } }

/-- Only the i2c core moves, and none of its steps reaches the driver. -/
theorem Gone.step {s s' : St} {a : Action} (h : Gone s) (hnext : next P s a = some s') :
    ¬ RunsModule s a ∧ s' = s.withCore s' := by
  have hstep := Step.of_next hnext
  have hinit := hstep.not_init h.init
  have hworker (pos : WorkerPc) (hpos : s.worker = pos) : pos = .idle := hpos ▸ h.worker
  have hexit (pos : ExitPc) (hpos : s.exit = pos) : pos = .done := hpos ▸ h.exit
  have hon : ¬ s.sh.notifier = true := by simp [h.notifier]
  cases hstep with
  | core hcore =>
    cases hcore with
    | addAdapter => exact ⟨id, rfl⟩
    | notifyIgnored => exact ⟨hon, rfl⟩
    | notifyAdd _ hon' => exact absurd hon' hon
    | rearm hne => exact absurd h.rearms hne
    | removeAdapter =>
      refine ⟨hon, ?_⟩
      rw [Shared.delAdapter_nil _ h.clients]
      rfl
    -- no client is left to be read
    | hwmonRead hmem => exact absurd hmem (by simp [h.clients])
  -- every thread is at its end
  | refuse | cardPresent | registerNotifier | initPass | initAttached | initNotAttached
  | initSchedule => exact absurd rfl (hinit _)
  | workerStart hpending => exact absurd (h.pending.symm.trans hpending) (by simp)
  | workerPass hpos | workerAttached hpos | workerNotAttached hpos | workerCount hpos
  | workerRetry hpos | workerGiveUp hpos => exact absurd (hworker _ hpos) (by simp)
  | exitStart _ hpos | unregisterNotifier hpos | cancel hpos | wait hpos | release hpos
  | nothingToRelease hpos | exitUnregister hpos | clear hpos =>
    exact absurd (hexit _ hpos) (by simp)

theorem Gone.congr {s t : St} (h : Gone s) (heq : t = s.withCore t) : Gone t := by
  rw [heq]
  exact ⟨h.init, h.exit, h.worker, h.pending, h.notifier, h.rearms, h.clients⟩

/-- **After `rmmod` no code of the module runs again.** When `astral_exit` has returned no client
of the driver is registered; and in every run from there, whatever adapters come and go, no step
is a thread's of the driver, no notification calls it, no device of its is read, and nothing it
keeps changes. -/
theorem astral_unload_final {s t : St} {l : List (St × Action)}
    (h : Reachable (lifecycle P) s) (hexit : s.exit = .done) (hp : Run (lifecycle P) s l t) :
    s.sh.clients = [] ∧ (∀ p ∈ l, ¬ RunsModule p.1 p.2) ∧ t = s.withCore t := by
  have hgone := gone_of_done h hexit
  refine ⟨hgone.clients, ?_⟩
  -- on the run; what the core does to its own lists does not bring the module back
  induction hp with
  | refl => exact ⟨by simp, rfl⟩
  | @tail u v m a _ hlast ih =>
    obtain ⟨hnone, hsame⟩ := ih
    obtain ⟨hlast', hsame'⟩ := (hgone.congr hsame).step (P := P) hlast
    refine ⟨?_, ?_⟩
    · intro p hmem
      rcases List.mem_append.mp hmem with hmem | hmem
      · exact hnone p hmem
      · obtain rfl := List.mem_singleton.mp hmem
        exact hlast'
    · calc v = u.withCore v := hsame'
        _ = (s.withCore u).withCore v := congrArg (fun r => St.withCore r v) hsame
        _ = s.withCore v := rfl

/-- The chip is attached and the module unloaded; then another adapter comes, and the sensor's
goes. -/
theorem astral_unload_final_removal :
    ∃ (s t : St) (l : List (St × Action)), Reachable (lifecycle oneCard) s ∧
      Run (lifecycle oneCard) s l t ∧ l.length = 3 ∧ s.sh.clients = [] ∧ t = s.withCore t := by
  have hrun : (System.exec (next oneCard) St.boot
      (addSensor ++ List.replicate 13 (.init .idle) ++ .exitStart :: List.replicate 6 .exit)).any
        (fun s => decide (s.exit = .done) &&
          (System.exec (next oneCard) s
            [.addAdapter 2 (otherAdapter 2 2).name (otherAdapter 2 2).parent,
              .notifyAdd (otherAdapter 2 2), .removeAdapter (sensorAdapter 0 1)]).isSome)
        = true := by
    decide +kernel
  obtain ⟨s, hexec, hexit, hs⟩ := System.any_decide_and_iff.mp hrun
  obtain ⟨t, hexect⟩ := Option.isSome_iff_exists.mp hs
  obtain ⟨l, hp, hacts⟩ := run_of_exec hexect
  have hreach : Reachable (lifecycle oneCard) s := System.exec_reachable rfl hexec
  obtain ⟨hclients, -, hsame⟩ := astral_unload_final (P := oneCard) hreach hexit hp
  exact ⟨s, t, l, hreach, hp, by rw [← List.length_map (f := Prod.snd), hacts]; rfl, hclients,
    hsame⟩

end Astral
