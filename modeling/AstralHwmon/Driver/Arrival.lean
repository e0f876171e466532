import AstralHwmon.Driver.Ownership

/-!
# An adapter's arrival is answered

When an adapter of the card appears and no chip is attached, the notifier starts
the retry cycle over and arms the probe. The promise is that the driver does not
come to rest (`St.Idle`) after that before an attach has succeeded or a whole
cycle, `ASTRAL_RETRY_LIMIT` passes, has failed (`AnsweredSince`).

The argument keeps two things. `Waiting`: while no attach succeeds, the attempt
counter is covered by the failures since the arrival, and the driver's pointer can
only be a tentative one, held by the pass in flight. `Awake`: whatever the threads
do, something still on its way will run another pass — a callback, the pending
work, a run of the worker whose reading of the counter is covered too, or
`astral_init` — until the failures are there. A thread that ends its turn because
it sees the pointer set leaves it to the thread that holds it.

The notifier tells "no chip attached" from the pointer alone, which a tentative
attach has set as well. An arrival during such an attach is ignored, and when the
attach fails the cycle resumes from the attempts already counted: up to fourteen
passes short (`astral_arrivalAnswered_ignored`). The promise is kept exactly when
the pointer was clear, or nothing had been counted yet
(`astral_arrivalAnswered`).
-/

open Transition

namespace Astral

variable {P : Setup}

/-- No attach has succeeded that a removal has not undone: the pointer is clear, or
on a client without a hwmon device. -/
def Unattached (s : St) : Prop := ∀ client ∈ s.sh.astralClient, .hwmon client ∉ s.sh.log

/-- At rest: no chip, no pass in flight, no probe work pending or running, and
neither `astral_init` nor a callback on its way to arming it. -/
def St.Idle (s : St) : Prop :=
  s.sh.astralClient = none ∧ s.sh.astralClaiming = false ∧ s.sh.pending = false ∧
    s.worker = .idle ∧ s.sh.rearms = 0 ∧ s.init = .done

instance (s : St) : Decidable (Unattached s) :=
  inferInstanceAs (Decidable (∀ client ∈ s.sh.astralClient, _))

instance (s : St) : Decidable s.Idle := inferInstanceAs (Decidable (_ ∧ _))

/-- Between the two states an attach succeeded, or a whole cycle of passes failed. -/
def AnsweredSince (s t : St) : Prop :=
  ∃ new, t.sh.log = new ++ s.sh.log ∧
    ((∃ client, .hwmon client ∈ new) ∨ astralRetryLimit ≤ new.count .passFailed)

/-! ### The record -/

/-- An attach has succeeded: its hwmon device was registered. -/
def Event.isHwmon : Event → Bool
  | .hwmon _ => true
  | _ => false

/-- How many attaches have succeeded. -/
def Shared.attaches (sh : Shared) : ℕ := sh.log.countP Event.isHwmon

/-- How many passes have failed. -/
def Shared.failures (sh : Shared) : ℕ := sh.log.count .passFailed

/-- What a step adds to the record: the counter grows by what the failures grow,
or is reset. -/
structure Counts (sh sh' : Shared) : Prop where
  suffix : sh.log <:+ sh'.log
  attempts : sh'.astralAttempts + sh.failures ≤ sh.astralAttempts + sh'.failures

theorem Counts.attaches_le {sh sh' : Shared} (h : Counts sh sh') : sh.attaches ≤ sh'.attaches :=
  h.suffix.sublist.countP_le

theorem Counts.failures_le {sh sh' : Shared} (h : Counts sh sh') : sh.failures ≤ sh'.failures :=
  h.suffix.sublist.count_le _

/-- A step that leaves the counter alone, whatever it records. -/
theorem Counts.grow {sh sh' : Shared} (hsuffix : sh.log <:+ sh'.log)
    (hattempts : sh'.astralAttempts = sh.astralAttempts) : Counts sh sh' := by
  refine ⟨hsuffix, ?_⟩
  have hle : sh.failures ≤ sh'.failures := hsuffix.sublist.count_le _
  omega

theorem ClaimedStep.counts {sh sh' : Shared} {env : Env} {pc : ClaimedPc}
    {pc' : Option ClaimedPc} (h : ClaimedStep P sh env pc sh' pc') : Counts sh sh' := by
  cases h with
  | create | read | readFail | register => exact .grow (List.suffix_cons _ _) rfl
  | unregister =>
    rw [Shared.i2cUnregisterDevice_eq]
    exact .grow (List.suffix_cons _ _) rfl
  | failed =>
    -- the settling counts the attempt and records the failure
    refine ⟨List.suffix_cons _ _, ?_⟩
    simp only [Shared.failures, List.count_cons_self]
    omega
  | walk | found | notFound | notCreated | publish | alloc | allocFail | registerFail
  | unpublish | unpublished | settled => exact .grow (List.suffix_refl _) rfl

theorem CoreStep.counts {sh sh' : Shared} {a : Action} (h : CoreStep P sh a sh') :
    Counts sh sh' := by
  cases h with
  | removeAdapter =>
    obtain ⟨clients, client, gone, heq, -⟩ := sh.delAdapter_spec _
    rw [heq]
    exact .grow (List.suffix_append _ _) rfl
  | hwmonRead => exact .grow (List.suffix_cons _ _) rfl
  -- the reset only lowers the counter
  | notifyAdd => exact ⟨List.suffix_refl _, Nat.add_le_add_right (Nat.zero_le _) _⟩
  | addAdapter | notifyIgnored | rearm => exact .grow (List.suffix_refl _) rfl

theorem Move.counts {o o' : Own} {a : Action} {act : Option (ClaimedPc × Env)}
    (h : Move P o a act o') : Counts o.sh o'.sh := by
  cases h with
  | core hstep => exact hstep.counts
  | pass _ _ hstep => exact hstep.counts
  | unregister =>
    rw [Shared.i2cUnregisterDevice_eq]
    exact .grow (List.suffix_cons _ _) rfl
  | control | load | unload | claim | release | nothingToRelease | clear =>
    exact .grow (List.suffix_refl _) rfl

/-! ### The pointer of a pass in flight -/

/-- The client a position holds published and unproven. -/
def ClaimedPc.tentative : ClaimedPc → Option I2cClient
  | .alloc c | .refresh c | .register c | .unpublish c => some c
  | _ => none

/-- The pointer is tentative, held by the pass in flight, or of a client with the
property `Q`. -/
def Published (Q : I2cClient → Prop) (o : Own) : Prop :=
  ∀ client, o.sh.astralClient = some client →
    (∃ pc, o.flight = some pc ∧ pc.tentative = some client) ∨ Q client

theorem Published.keep {Q Q' : I2cClient → Prop} {o o' : Own} (h : Published Q o)
    (hQ : ∀ client, Q client → Q' client) (hflight : o'.flight = o.flight)
    (hptr : ∀ client, o'.sh.astralClient = some client → o.sh.astralClient = some client) :
    Published Q' o' := by
  intro client hclient
  rw [hflight]
  exact (h client (hptr client hclient)).imp_right (hQ client)

/-- A pass keeps the pointer tentative until it clears it, or registers the hwmon
device. -/
theorem Published.pass {Q Q' : I2cClient → Prop} {o : Own} {env : Env} {pc : ClaimedPc}
    {sh' : Shared} {pc' : Option ClaimedPc} (h : Published Q o)
    (hQ : ∀ client, Q client → Q' client)
    (hregister : ∀ client, sh'.log = .hwmon client :: o.sh.log → Q' client)
    (hpc : o.flight = some pc) (hstep : ClaimedStep P o.sh env pc sh' pc') :
    Published Q' { o with sh := sh', flight := pc' } := by
  -- the pass holds no pointer before the step: one that is set has the property
  have hother (client : I2cClient) (hnot : pc.tentative ≠ some client)
      (hclient : o.sh.astralClient = some client) : Q' client := by
    rcases h client hclient with ⟨pc₀, hpc₀, htent⟩ | hq
    · obtain rfl : pc₀ = pc := Option.some.inj (hpc₀.symm.trans hpc)
      exact absurd htent hnot
    · exact hQ client hq
  -- the pass goes on holding what it held
  have hsame (client : I2cClient) (pc₁ : ClaimedPc) (htent : pc₁.tentative = pc.tentative)
      (hclient : o.sh.astralClient = some client) :
      (∃ pc, some pc₁ = some pc ∧ pc.tentative = some client) ∨ Q' client := by
    rcases h client hclient with ⟨pc₀, hpc₀, hold⟩ | hq
    · obtain rfl : pc₀ = pc := Option.some.inj (hpc₀.symm.trans hpc)
      exact Or.inl ⟨pc₁, rfl, htent.trans hold⟩
    · exact Or.inr (hQ client hq)
  intro client hclient
  cases hstep with
  | publish =>
    obtain rfl := Option.some.inj hclient
    exact Or.inl ⟨_, rfl, rfl⟩
  | alloc | allocFail | read | readFail | registerFail => exact hsame client _ rfl hclient
  | @register c =>
    -- from here on it is attached, no longer tentative
    rcases h client hclient with ⟨pc₀, hpc₀, hold⟩ | hq
    · obtain rfl : pc₀ = .register c := Option.some.inj (hpc₀.symm.trans hpc)
      obtain rfl := Option.some.inj hold
      exact Or.inr (hregister c rfl)
    · exact Or.inr (hQ client hq)
  | unpublish => exact absurd hclient (by simp)
  | unpublished hne =>
    -- the comparison failed, so the pointer set is not the pass's own
    refine Or.inr (hother client ?_ hclient)
    rintro hold
    obtain rfl := Option.some.inj hold
    exact hne hclient
  | unregister =>
    rw [Shared.i2cUnregisterDevice_eq] at hclient
    refine Or.inr (hother client (by simp [ClaimedPc.tentative]) ?_)
    simp only at hclient
    split_ifs at hclient
    exact hclient
  | walk | found | notFound | create | notCreated | settled | failed =>
    exact Or.inr (hother client (by simp [ClaimedPc.tentative]) hclient)

theorem Published.move {Q Q' : I2cClient → Prop} {o o' : Own} {a : Action}
    {act : Option (ClaimedPc × Env)} (h : Published Q o)
    (hQ : ∀ client, Q client → Q' client)
    (hregister : ∀ client, o'.sh.log = .hwmon client :: o.sh.log → Q' client)
    (hmove : Move P o a act o') : Published Q' o' := by
  cases hmove with
  -- only the pass publishes; every other move keeps the pointer or clears it
  | pass hpc _ hstep => exact h.pass hQ hregister hpc hstep
  | core hstep =>
    obtain ⟨-, -, -, -, hptr⟩ := hstep.frame
    refine h.keep hQ rfl fun client hclient => ?_
    rcases hptr with hptr | ⟨-, hptr⟩
    · exact hptr.symm.trans hclient
    · exact absurd (hptr.symm.trans hclient) (by simp)
  | claim _ _ hclient => exact fun client hold => absurd (hclient.symm.trans hold) (by simp)
  | unregister =>
    rw [Shared.i2cUnregisterDevice_eq]
    refine h.keep hQ rfl fun client hclient => ?_
    simp only at hclient
    split_ifs at hclient
    exact hclient
  | clear => exact fun client hold => absurd hold (by simp)
  | control | load | unload | release | nothingToRelease =>
    exact h.keep hQ rfl fun _ hclient => hclient

/-- A pointer that is set is tentative, or on a client with a hwmon device. -/
theorem published_reachable {s : St} (h : Reachable (lifecycle P) s) :
    Published (fun client => .hwmon client ∈ s.sh.log) s.own := by
  refine own_invariant_reachable
    (I := fun o => Published (fun client => .hwmon client ∈ o.sh.log) o) ?_ ?_ h
  · intro client hclient
    exact absurd hclient (by simp [St.own, St.boot])
  · intro s a o hpub hmove
    refine hpub.move (fun client hmem => ?_) (fun client hlog => ?_) hmove
    · exact hmove.counts.suffix.subset hmem
    · rw [hlog]
      exact List.mem_cons_self

/-! ### What is still on its way -/

/-- `astral_init` is past registering the notifier and has not returned. -/
def InitPc.running : InitPc → Bool
  | .pass _ | .attached | .schedule => true
  | _ => false

/-- No attach has succeeded: the counter is covered by the failures beyond `F₀`,
and the pointer is tentative. -/
structure Waiting (F₀ : ℕ) (o : Own) : Prop where
  counted : F₀ + o.sh.astralAttempts ≤ o.sh.failures
  tentative : Published (fun _ => False) o

/-- A whole cycle has failed beyond `F₀`, or something is on its way that will run
another pass. A worker about to decide counts if what it read is covered. -/
def Awake (F₀ : ℕ) (s : St) : Prop :=
  F₀ + astralRetryLimit ≤ s.sh.failures ∨ 0 < s.sh.rearms ∨ s.sh.pending = true ∨
    (s.worker ≠ .idle ∧ ∀ scan attempts report, s.worker = .retry scan attempts report →
      F₀ + attempts ≤ s.sh.failures) ∨
    s.init.running = true

theorem Waiting.move {F₀ : ℕ} {o o' : Own} {a : Action} {act : Option (ClaimedPc × Env)}
    (h : Waiting F₀ o) (hmove : Move P o a act o') :
    o.sh.attaches < o'.sh.attaches ∨ Waiting F₀ o' := by
  by_cases hregister : ∃ client, o'.sh.log = .hwmon client :: o.sh.log
  -- an attach succeeds
  · obtain ⟨client, hlog⟩ := hregister
    refine Or.inl ?_
    rw [Shared.attaches, Shared.attaches, hlog, List.countP_cons_of_pos rfl]
    exact Nat.lt_succ_self _
  · refine Or.inr ⟨?_, h.tentative.move (fun _ hf => hf) (fun c hlog => hregister ⟨c, hlog⟩) hmove⟩
    have hcounted := h.counted
    have hattempts := hmove.counts.attempts
    omega

/-- While a tentative attach is in flight, its thread is running. -/
theorem Waiting.thread {F₀ : ℕ} {s : St} (h : Waiting F₀ s.own)
    (hclient : s.sh.astralClient.isSome = true) :
    (∃ call, s.init = .pass call) ∨ ∃ call, s.worker = .pass call := by
  obtain ⟨client, hclient⟩ := Option.isSome_iff_exists.mp hclient
  rcases h.tentative client hclient with ⟨pc, hpc, -⟩ | hf
  -- the pass in flight is one of the two threads'
  · rcases Option.or_eq_some_iff.mp hpc with hinit | ⟨-, hworker⟩
    · obtain ⟨scan, hinit⟩ := InitPc.eq_of_claimed hinit
      exact Or.inl ⟨_, hinit⟩
    · obtain ⟨scan, hworker⟩ := WorkerPc.eq_of_claimed hworker
      exact Or.inr ⟨_, hworker⟩
  · exact hf.elim

/-- The module does not come back from its exit. -/
theorem Step.exit_idle {s s' : St} {a : Action} (h : Step P s a s') (hexit : s'.exit = .idle) :
    s.exit = .idle := by
  cases h with
  | exitStart | unregisterNotifier | cancel | wait | release | nothingToRelease | exitUnregister
  | clear => exact absurd hexit (by simp)
  | _ => exact hexit

theorem Step.uncanceled {s s' : St} {a : Action} (h : Step P s a s') (hexit : s'.exit = .idle)
    (hcan : s.sh.canceling = false) : s'.sh.canceling = false := by
  cases h with
  | core hstep => exact hstep.frame.2.1.trans hcan
  | initPass _ hstep | workerPass _ hstep => exact hstep.frame.canceling.trans hcan
  | cancel | exitUnregister => exact absurd hexit (by simp)
  | wait => rfl
  | _ => exact hcan

/-- A callback in progress ends with the work armed. -/
theorem Step.rearms {s s' : St} {a : Action} (h : Step P s a s')
    (hcan : s.sh.canceling = false) (hrearms : 0 < s.sh.rearms) :
    0 < s'.sh.rearms ∨ s'.sh.pending = true := by
  cases h with
  | core hstep =>
    cases hstep with
    -- the work can be queued, as nobody is cancelling it
    | rearm => exact Or.inr (by simp [hcan])
    | removeAdapter => exact Or.inl (by simpa using hrearms)
    | notifyAdd => exact Or.inl (Nat.succ_pos _)
    | addAdapter | notifyIgnored | hwmonRead => exact Or.inl hrearms
  | initPass _ hstep | workerPass _ hstep => exact Or.inl (hstep.frame.rearms.symm ▸ hrearms)
  | exitUnregister =>
    rw [Shared.i2cUnregisterDevice_eq]
    exact Or.inl hrearms
  | _ => exact Or.inl hrearms

/-- Pending work stays pending until the worker runs. -/
theorem Step.pending {s s' : St} {a : Action} (h : Step P s a s') (hexit : s'.exit = .idle)
    (hpending : s.sh.pending = true) :
    s'.sh.pending = true ∨ ∃ call, s'.worker = .pass call := by
  cases h with
  | core hstep =>
    cases hstep with
    | rearm => exact Or.inl (by simp [hpending])
    | removeAdapter => exact Or.inl (by simpa using hpending)
    | addAdapter | notifyIgnored | notifyAdd | hwmonRead => exact Or.inl hpending
  | initPass _ hstep | workerPass _ hstep => exact Or.inl (hstep.frame.pending.trans hpending)
  | workerStart => exact Or.inr ⟨_, rfl⟩
  | initSchedule | workerRetry => exact Or.inl (by simp [hpending])
  | cancel | exitUnregister => exact absurd hexit (by simp)
  | _ => exact Or.inl hpending

theorem Awake.ofPass {F₀ : ℕ} {s : St} {call : Pass} (h : s.worker = .pass call) : Awake F₀ s :=
  Or.inr (Or.inr (Or.inr (Or.inl ⟨by simp [h], by simp [h]⟩)))

theorem Awake.ofPending {F₀ : ℕ} {s : St} (h : s.sh.pending = true) : Awake F₀ s :=
  Or.inr (Or.inr (Or.inl h))

theorem Awake.ofInit {F₀ : ℕ} {s : St} (h : s.init.running = true) : Awake F₀ s :=
  Or.inr (Or.inr (Or.inr (Or.inr h)))

theorem Awake.ofWorker {F₀ : ℕ} {s : St} (hworker : s.worker ≠ .idle)
    (hcovered : ∀ scan attempts report, s.worker = .retry scan attempts report →
      F₀ + attempts ≤ s.sh.failures) : Awake F₀ s :=
  Or.inr (Or.inr (Or.inr (Or.inl ⟨hworker, hcovered⟩)))

theorem InitPc.running_afterPass (call : Pass) : (InitPc.afterPass call).running = true := by
  unfold InitPc.afterPass
  split_ifs <;> rfl

theorem WorkerPc.afterPass_ne (call : Pass) : WorkerPc.afterPass call ≠ .idle ∧
    ∀ scan attempts report, WorkerPc.afterPass call ≠ .retry scan attempts report := by
  unfold WorkerPc.afterPass
  split_ifs <;> simp

/-- `astral_init` ends with a tentative attach in flight, or with the work armed. -/
theorem Step.init_running {F₀ : ℕ} {s s' : St} {a : Action} (h : Step P s a s')
    (hw : Waiting F₀ s.own) (hcan : s.sh.canceling = false) (hrun : s.init.running = true) :
    Awake F₀ s' := by
  cases h with
  | refuse hinit => rcases hinit with hinit | hinit <;> simp [hinit, InitPc.running] at hrun
  | cardPresent hinit => simp [hinit, InitPc.running] at hrun
  | registerNotifier => exact .ofInit rfl
  | initPass => exact .ofInit (InitPc.running_afterPass _)
  | initAttached hinit hclient =>
    -- it leaves the rest to the worker, whose pass holds the pointer
    rcases hw.thread hclient with ⟨call, hpass⟩ | ⟨call, hworker⟩
    · exact absurd (hinit.symm.trans hpass) (by simp)
    · exact .ofPass hworker
  | initNotAttached => exact .ofInit rfl
  | initSchedule => exact .ofPending (by simp [hcan])
  | _ => exact .ofInit hrun

/-- A run of the worker ends with a tentative attach in flight, with the work armed,
or with a whole cycle failed. -/
theorem Step.worker_running {F₀ : ℕ} {s s' : St} {a : Action} (h : Step P s a s')
    (hw : Waiting F₀ s.own) (hcan : s.sh.canceling = false)
    (hfailures : s.sh.failures ≤ s'.sh.failures) (hrun : s.worker ≠ .idle)
    (hcovered : ∀ scan attempts report, s.worker = .retry scan attempts report →
      F₀ + attempts ≤ s.sh.failures) : Awake F₀ s' := by
  have hkeep (hsame : s'.worker = s.worker) : Awake F₀ s' := by
    refine .ofWorker (hsame ▸ hrun) fun scan attempts report heq => ?_
    exact (hcovered scan attempts report (hsame ▸ heq)).trans hfailures
  cases h with
  | workerStart _ hworker => exact absurd hworker hrun
  | workerPass =>
    obtain ⟨hne, hnot⟩ := WorkerPc.afterPass_ne ‹Pass›
    exact .ofWorker hne fun scan attempts report heq => absurd heq (hnot scan attempts report)
  | workerAttached hworker hclient =>
    -- it leaves the rest to `astral_init`, whose pass holds the pointer
    rcases hw.thread hclient with ⟨call, hpass⟩ | ⟨call, hpass⟩
    · exact .ofInit (by change s.init.running = true; rw [hpass]; rfl)
    · exact absurd (hworker.symm.trans hpass) (by simp)
  | workerNotAttached => exact .ofWorker (by simp) (by simp)
  | workerCount =>
    -- the counter is read here, and acted upon one step later
    refine .ofWorker (by simp) fun scan attempts report heq => ?_
    obtain ⟨-, rfl, -⟩ := by simpa using heq
    exact hw.counted
  | workerRetry => exact .ofPending (by simp [hcan])
  | workerGiveUp hworker hlimit =>
    -- what it read is covered by the failures, so these have reached the limit
    refine Or.inl ?_
    have := hcovered _ _ _ hworker
    change F₀ + astralRetryLimit ≤ s.sh.failures
    omega
  | _ => exact hkeep rfl

theorem Awake.step {F₀ : ℕ} {s s' : St} {a : Action} (h : Awake F₀ s) (hstep : Step P s a s')
    (hw : Waiting F₀ s.own) (hcan : s.sh.canceling = false) (hexit : s'.exit = .idle)
    (hfailures : s.sh.failures ≤ s'.sh.failures) : Awake F₀ s' := by
  -- each thing on its way, with what becomes of it
  rcases h with hdone | hrearms | hpending | ⟨hrun, hcovered⟩ | hrun
  · exact Or.inl (hdone.trans hfailures)
  · rcases hstep.rearms hcan hrearms with hrearms | hpending
    · exact Or.inr (Or.inl hrearms)
    · exact .ofPending hpending
  · rcases hstep.pending hexit hpending with hpending | ⟨call, hworker⟩
    · exact .ofPending hpending
    · exact .ofPass hworker
  · exact hstep.worker_running hw hcan hfailures hrun hcovered
  · exact hstep.init_running hw hcan hrun

/-! ### The promise -/

theorem uncanceled_reachable {s : St} (h : Reachable (lifecycle P) s) (hexit : s.exit = .idle) :
    s.sh.canceling = false := by
  refine Reachable.invariant (I := fun s => s.exit = .idle → s.sh.canceling = false) ?_ ?_ h hexit
  · rintro _ rfl -
    rfl
  · intro s a t hI hnext hexit
    have hstep := Step.of_next hnext
    exact hstep.uncanceled hexit (hI (hstep.exit_idle hexit))

/-- What holds from an arrival on, before the module exits: more attaches have
succeeded than `A₀`, or the driver waits, awake. -/
def Promised (A₀ F₀ : ℕ) (s : St) : Prop :=
  s.exit = .idle → s.sh.canceling = false ∧
    (A₀ < s.sh.attaches ∨ Waiting F₀ s.own ∧ Awake F₀ s)

theorem Promised.step {A₀ F₀ : ℕ} {s s' : St} {a : Action} (h : Promised A₀ F₀ s)
    (hle : A₀ ≤ s.sh.attaches) (hc : Control s) (hstep : Step P s a s') : Promised A₀ F₀ s' := by
  intro hexit
  obtain ⟨hcan, hstate⟩ := h (hstep.exit_idle hexit)
  refine ⟨hstep.uncanceled hexit hcan, ?_⟩
  have hmove := hstep.move hc
  have hcounts : Counts s.sh s'.sh := hmove.counts
  rcases hstate with hattached | ⟨hw, hawake⟩
  · exact Or.inl (hattached.trans_le hcounts.attaches_le)
  rcases hw.move hmove with hattached | hw'
  · exact Or.inl (hle.trans_lt hattached)
  · exact Or.inr ⟨hw', hawake.step hstep hw hcan hexit hcounts.failures_le⟩

/-- The promise is kept along a run. -/
theorem Promised.run {s t : St} {l : List (St × Action)} {A₀ F₀ : ℕ} (h : Promised A₀ F₀ s)
    (hle : A₀ ≤ s.sh.attaches) (hc : Control s) (hp : Run (lifecycle P) s l t) :
    Promised A₀ F₀ t ∧ s.sh.log <:+ t.sh.log := by
  have hinv : Control t ∧ Promised A₀ F₀ t ∧ A₀ ≤ t.sh.attaches ∧ s.sh.log <:+ t.sh.log := by
    refine Run.history (J := fun _ t => Control t ∧ Promised A₀ F₀ t ∧ A₀ ≤ t.sh.attaches ∧
      s.sh.log <:+ t.sh.log) ⟨hc, h, hle, List.suffix_refl _⟩ ?_ hp
    rintro - u a v - ⟨hc, hprom, hle, hsuffix⟩ hnext
    have hstep := Step.of_next hnext
    have hcounts : Counts u.sh v.sh := (hstep.move hc).counts
    exact ⟨hc.step hstep, hprom.step hle hc hstep, hle.trans hcounts.attaches_le,
      hsuffix.trans hcounts.suffix⟩
  exact ⟨hinv.2.1, hinv.2.2.2⟩

/-- What the notifier makes of an arrival. -/
theorem next_notifyAdd {s s₁ : St} {adap : I2cAdapter}
    (hadd : next P s (.notifyAdd adap) = some s₁) (hn : s.sh.notifier = true)
    (hmatch : (astralCardMatches adap P.allowUnknown).isSome = true) :
    s₁ = { s with sh :=
      if s.sh.astralClient.isNone then
        { s.sh with
          adding := s.sh.adding.erase adap
          astralAttempts := 0
          astralStageReported := false
          rearms := s.sh.rearms + 1 }
      else { s.sh with adding := s.sh.adding.erase adap } } := by
  have hsome : (astralCardMatches adap P.allowUnknown).isNone = false := by
    rw [← Option.not_isSome, hmatch]
    rfl
  simp only [next] at hadd
  split_ifs at hadd
  obtain rfl := Option.some.inj hadd
  simp [Shared.notifyAdd, Shared.astralBusNotifyAdd, hn, hsome]

/-- Once the notifier has dealt with an arrival, it started the cycle over; or a
tentative attach is in flight, of a cycle that has just begun. -/
theorem promised_of_arrival {s s₁ : St} {adap : I2cAdapter} (h : Reachable (lifecycle P) s)
    (hadd : next P s (.notifyAdd adap) = some s₁) (hn : s.sh.notifier = true)
    (hmatch : (astralCardMatches adap P.allowUnknown).isSome = true) (hun : Unattached s)
    (hcond : s.sh.astralClient = none ∨ s.sh.astralAttempts = 0) :
    Promised s₁.sh.attaches s₁.sh.failures s₁ := by
  obtain rfl := next_notifyAdd hadd hn hmatch
  intro hexit
  have hcan := uncanceled_reachable h hexit
  cases hclient : s.sh.astralClient with
  | none =>
    -- counter reset, callback on its way
    simp only [Option.isNone_none, if_true]
    refine ⟨hcan, Or.inr ⟨⟨Nat.le_refl _, ?_⟩, Or.inr (Or.inl (Nat.succ_pos _))⟩⟩
    exact fun client hset => absurd (hclient.symm.trans hset) (by simp)
  | some client =>
    have hzero : s.sh.astralAttempts = 0 := hcond.resolve_left (by simp [hclient])
    simp only [Option.isNone_some, Bool.false_eq_true, if_false]
    -- the pointer is set by an attach that is not proven, so it is in flight
    have htentative : Published (fun _ => False) s.own := by
      intro c hset
      refine (published_reachable h c hset).imp_right fun hmem => ?_
      exact absurd hmem (hun c hset)
    have hw : Waiting s.sh.failures s.own := ⟨by simp [St.own, hzero], htentative⟩
    refine ⟨hcan, Or.inr ⟨⟨by simp [St.own, hzero, Shared.failures], htentative⟩, ?_⟩⟩
    rcases hw.thread (by simp [hclient]) with ⟨call, hpass⟩ | ⟨call, hpass⟩
    · exact .ofInit (by change s.init.running = true; rw [hpass]; rfl)
    · exact .ofPass hpass

/-- **An arrival is answered**, when it finds the driver's pointer clear or no
attempt counted. From any reachable state: an adapter the card gate accepts is
announced to the registered notifier while no attach stands. Then in every run
that follows, the driver is not at rest before the module exits unless, since the
arrival, an attach has succeeded or fifteen passes have failed. -/
theorem astral_arrivalAnswered {s s₁ t : St} {adap : I2cAdapter} {l : List (St × Action)}
    (h : Reachable (lifecycle P) s) (hadd : next P s (.notifyAdd adap) = some s₁)
    (hn : s.sh.notifier = true)
    (hmatch : (astralCardMatches adap P.allowUnknown).isSome = true) (hun : Unattached s)
    (hcond : s.sh.astralClient = none ∨ s.sh.astralAttempts = 0)
    (hp : Run (lifecycle P) s₁ l t) (hexit : t.exit = .idle) (hidle : t.Idle) :
    AnsweredSince s₁ t := by
  have hc : Control s₁ := (control_reachable h).step (Step.of_next hadd)
  obtain ⟨hprom, newer, hlog⟩ :=
    (promised_of_arrival h hadd hn hmatch hun hcond).run le_rfl hc hp
  refine ⟨newer, hlog.symm, ?_⟩
  rcases (hprom hexit).2 with hattached | ⟨-, hawake⟩
  · -- the count of attaches grew, so the new events hold one
    refine Or.inl ?_
    rw [Shared.attaches, Shared.attaches, ← hlog, List.countP_append] at hattached
    obtain ⟨e, hmem, hhwmon⟩ := List.countP_pos_iff.mp (by omega : 0 < newer.countP Event.isHwmon)
    cases e with
    | hwmon client => exact ⟨client, hmem⟩
    | _ => exact absurd hhwmon (by simp [Event.isHwmon])
  · -- at rest nothing is on its way, so a whole cycle has failed
    obtain ⟨-, -, hpending, hworker, hrearms, hinit⟩ := hidle
    rcases hawake with hdone | hrearm | hpend | ⟨hrun, -⟩ | hrun
    · refine Or.inr ?_
      rw [Shared.failures, Shared.failures, ← hlog, List.count_append] at hdone
      omega
    · omega
    · exact absurd hpend (by simp [hpending])
    · exact absurd hworker hrun
    · exact absurd hrun (by simp [hinit, InitPc.running])

/-! ### A cycle that is resumed -/

theorem run_of_exec {s t : St} {as : List Action} (h : System.exec (next P) s as = some t) :
    ∃ l, Run (lifecycle P) s l t ∧ l.map Prod.snd = as :=
  System.exec_run h

/-- The first pass of `astral_init` fails, and the module is loaded. -/
def loadRefused : List Action :=
  List.replicate 2 (.init .idle) ++ List.replicate 7 (.init .refused)

/-- A run of the worker whose pass gets no reference to the adapter. -/
def workerRefused : List Action := .workerStart :: List.replicate 8 (.worker .refused)

/-- Another adapter of the card. -/
def otherAdapter (obj nr : ℕ) : I2cAdapter :=
  ⟨obj, nr, "NVIDIA i2c adapter 2 at 1:00.0".toList, some (.pci ⟨0x10de, 0x1043, 0x89e3⟩)⟩

/-- An arrival after the load restarts the cycle: fifteen more passes fail before
the driver is at rest. -/
theorem astral_arrivalAnswered_restarted :
    ∃ s s₁ t, Reachable (lifecycle oneCard) s ∧
      next oneCard s (.notifyAdd (sensorAdapter 0 1)) = some s₁ ∧ t.Idle ∧
      AnsweredSince s₁ t := by
  have hrun : (System.exec (next oneCard) St.boot
      (loadRefused ++ [.addAdapter 1 sensorName (some (.pci ⟨0x10de, 0x1043, 0x89e3⟩))])).any
        (fun s => decide (s.sh.notifier = true ∧ s.sh.astralClient = none) &&
          (next oneCard s (.notifyAdd (sensorAdapter 0 1))).any fun s₁ =>
            (System.exec (next oneCard) s₁
              (.rearm :: (List.replicate 15 workerRefused).flatten)).any fun t =>
                decide (t.exit = .idle ∧ t.Idle)) = true := by
    decide +kernel
  -- the pointer was clear when the adapter arrived, so the cycle starts over
  obtain ⟨s, hexec, ⟨hn, hclient⟩, hs⟩ := System.any_decide_and_iff.mp hrun
  obtain ⟨s₁, hadd, hs₁⟩ := Option.any_eq_true _ _ |>.mp hs
  obtain ⟨t, hexec', hexit, hidle⟩ := System.any_decide_iff.mp hs₁
  have hreach : Reachable (lifecycle oneCard) s := System.exec_reachable rfl hexec
  have hun : Unattached s := fun client hset => absurd (hclient.symm.trans hset) (by simp)
  obtain ⟨l, hp, -⟩ := run_of_exec hexec'
  exact ⟨s, s₁, t, hreach, hadd, hidle,
    astral_arrivalAnswered hreach hadd hn (by decide) hun (Or.inl hclient) hp hexit hidle⟩

/-- **An arrival that is ignored.** Fourteen passes have failed when the fifteenth
publishes a client; another adapter of the card arrives at that moment, and is
ignored. The attach fails, the worker gives up, and the driver is at rest one
failed pass after the arrival. -/
theorem astral_arrivalAnswered_ignored :
    ∃ s s₁ t l, Reachable (lifecycle oneCard) s ∧
      next oneCard s (.notifyAdd (otherAdapter 2 2)) = some s₁ ∧ s.sh.notifier = true ∧
      (astralCardMatches (otherAdapter 2 2) oneCard.allowUnknown).isSome = true ∧
      Unattached s ∧ Run (lifecycle oneCard) s₁ l t ∧ t.exit = .idle ∧ t.Idle ∧
      ¬ AnsweredSince s₁ t := by
  have hrun : (System.exec (next oneCard) St.boot
      (addSensor ++ loadRefused ++ (List.replicate 13 workerRefused).flatten ++
        .workerStart :: List.replicate 5 (.worker .idle) ++
        [.addAdapter 2 (otherAdapter 2 2).name (otherAdapter 2 2).parent])).any
        (fun s => decide (s.sh.notifier = true ∧ Unattached s) &&
          (next oneCard s (.notifyAdd (otherAdapter 2 2))).any fun s₁ =>
            (System.exec (next oneCard) s₁
              (.worker .idle :: List.replicate 8 (.worker .refused))).any fun t =>
                decide (t.exit = .idle ∧ t.Idle ∧ t.sh.attaches = 0 ∧
                  t.sh.failures < s₁.sh.failures + astralRetryLimit)) = true := by
    decide +kernel
  obtain ⟨s, hexec, ⟨hn, hun⟩, hs⟩ := System.any_decide_and_iff.mp hrun
  obtain ⟨s₁, hadd, hs₁⟩ := Option.any_eq_true _ _ |>.mp hs
  obtain ⟨t, hexec', hexit, hidle, hattaches, hfailures⟩ := System.any_decide_iff.mp hs₁
  obtain ⟨l, hp, -⟩ := run_of_exec hexec'
  refine ⟨s, s₁, t, l, System.exec_reachable rfl hexec, hadd, hn, by decide, hun, hp, hexit,
    hidle, ?_⟩
  -- neither kind of answer is among what the log has grown by
  rintro ⟨newer, hlog, ⟨client, hmem⟩ | hfailed⟩
  · have hpos : 0 < t.sh.attaches := by
      rw [Shared.attaches, hlog]
      exact List.countP_pos_iff.mpr ⟨_, List.mem_append_left _ hmem, rfl⟩
    omega
  · rw [Shared.failures, hlog, List.count_append, Shared.failures] at hfailures
    omega

end Astral
