import AstralHwmon.Driver.Arrival

/-!
# The retry cycle ends

A re-arm, which is what an adapter's `ADD` notification amounts to when no chip is
attached, resets `astral_attempts` and queues the work. Runs in which the callback does
both at once are those whose steps are all `RearmAtOnce`.

From a re-arm to the next the counter is the number of failed passes, and what bounds it is
`Spent`: while work is queued there are attempts left, but for what a run of the worker
already in progress adds. `Within` has the bound itself. A run that reads an exhausted
counter leaves the driver `AtRest`, which only a re-arm ends.

`Spent` holds after every re-arm, and after every start of the worker once `astral_init` has
returned. It does not hold from the return of `astral_init` on: that queues the work whatever
the counter is by then (`astral_retryCycle_overtaken`).
-/

open Transition

namespace Astral

variable {P : Setup}

/-! ### Re-arming -/

/-- The step is a callback's queueing of the work. -/
def Action.isRearm : Action → Bool
  | .rearm => true
  | _ => false

/-- Nothing comes between the callback's reset of the counter and its queueing of the work. -/
def RearmAtOnce (s : St) (a : Action) : Prop := s.sh.rearms = 0 ∨ a.isRearm = true

instance (s : St) (a : Action) : Decidable (RearmAtOnce s a) := inferInstanceAs (Decidable (_ ∨ _))

/-- The step is an `ADD` notification that starts the cycle over. -/
def Rearms (P : Setup) (s : St) : Action → Prop
  | .notifyAdd adap => s.sh.notifier = true ∧
      (astralCardMatches adap P.allowUnknown).isSome = true ∧ s.sh.astralClient = none
  | _ => False

instance (s : St) (a : Action) : Decidable (Rearms P s a) :=
  match a with
  | .notifyAdd _ => inferInstanceAs (Decidable (_ ∧ _ ∧ _))
  | .addAdapter .. | .rearm | .removeAdapter _ | .hwmonRead .. | .init _ | .workerStart | .worker _
  | .exitStart | .exit => inferInstanceAs (Decidable False)

/-- Any other notification is ignored. -/
theorem next_notifyAdd_ignored {s s' : St} {adap : I2cAdapter}
    (hnext : next P s (.notifyAdd adap) = some s') (hquiet : ¬ Rearms P s (.notifyAdd adap)) :
    s' = { s with sh := { s.sh with adding := s.sh.adding.erase adap } } := by
  simp only [next] at hnext
  split_ifs at hnext
  obtain rfl := Option.some.inj hnext
  simp only [Shared.notifyAdd, Shared.astralBusNotifyAdd]
  split
  next hn =>
    split
    next => rfl
    next hmatch =>
      split
      next hclient =>
        -- nothing is missing for a re-arm
        rw [Option.isNone_iff_eq_none, ← Option.not_isSome_iff_eq_none, not_not] at hmatch
        exact absurd ⟨hn, hmatch, Option.isNone_iff_eq_none.mp hclient⟩ hquiet
      next => rfl
  next => rfl

/-- Without a re-arm no callback is put on its way. -/
theorem next_rearms_le {s s' : St} {a : Action} (hnext : next P s a = some s')
    (hquiet : ¬ Rearms P s a) : s'.sh.rearms ≤ s.sh.rearms := by
  cases Step.of_next hnext with
  | core hstep =>
    cases hstep with
    | notifyAdd =>
      exact (congrArg (fun s => s.sh.rearms) (next_notifyAdd_ignored hnext hquiet)).le
    | rearm => exact Nat.sub_le _ _
    | removeAdapter => exact (Shared.delAdapter_rearms _ _).le
    | addAdapter | notifyIgnored | hwmonRead => exact le_rfl
  | initPass _ hstep | workerPass _ hstep => exact hstep.frame.rearms.le
  | exitUnregister => rw [Shared.i2cUnregisterDevice_eq]
  | _ => exact le_rfl

/-! ### The counter counts the failures -/

/-- The counter grows by what the failures grow. -/
def Tallies (sh sh' : Shared) : Prop :=
  sh'.failures + sh.astralAttempts = sh.failures + sh'.astralAttempts

theorem ClaimedStep.tallies {sh sh' : Shared} {env : Env} {pc : ClaimedPc}
    {pc' : Option ClaimedPc} (h : ClaimedStep P sh env pc sh' pc') : Tallies sh sh' := by
  unfold Tallies Shared.failures
  cases h with
  | failed => simp only [List.count_cons_self]; omega
  | unregister => simp [Shared.i2cUnregisterDevice_eq]
  | _ => simp

theorem PassStep.tallies {sh sh' : Shared} {env : Env} {call call' : Pass}
    (h : PassStep P sh env call sh' call') : Tallies sh sh' := by
  cases h with
  | claimed hstep | release hstep => exact hstep.tallies
  | blocked | claim | put | returned => exact rfl

/-- Between two re-arms. -/
theorem next_tallies {s s' : St} {a : Action} (hnext : next P s a = some s')
    (hquiet : ¬ Rearms P s a) : Tallies s.sh s'.sh := by
  have hle := next_rearms_le hnext hquiet
  cases Step.of_next hnext with
  | core hstep =>
    cases hstep with
    | notifyAdd => exact absurd hle (Nat.not_succ_le_self _)
    | removeAdapter =>
      obtain ⟨clients, client, gone, heq, -, -, hgone⟩ := s.sh.delAdapter_spec _
      have hnone : gone.count .passFailed = 0 := by
        refine List.count_eq_zero.mpr fun hmem => ?_
        obtain ⟨c, -, hc⟩ := hgone _ hmem
        exact absurd hc (by simp)
      rw [heq, Tallies, Shared.failures, Shared.failures, List.count_append, hnone, Nat.zero_add]
    | hwmonRead => simp [Tallies, Shared.failures]
    | addAdapter | notifyIgnored | rearm => exact rfl
  | initPass _ hstep | workerPass _ hstep => exact hstep.tallies
  | exitUnregister => simp [Tallies, Shared.failures, Shared.i2cUnregisterDevice_eq]
  | _ => exact rfl

/-! ### Attempts left -/

/-- How many passes a run of the worker has settled, at the most. -/
def WorkerPc.settled : WorkerPc → ℕ
  | .pass ⟨.claim, _⟩ | .pass ⟨.claimed _, _⟩ => 0
  | _ => 1

/-- How far the counter can have got when work is queued. -/
def WorkerPc.queueable : WorkerPc → ℕ
  | .idle => astralRetryLimit - 1
  | worker => worker.settled

/-- Queued work has attempts left. A reset whose callback has not queued its work yet leaves
all of them, and a run of the worker acts on a count that the counter has not passed since. -/
structure Spent (s : St) : Prop where
  rearming : s.sh.rearms ≠ 0 → s.sh.astralAttempts = 0
  queued : s.sh.pending = true → s.sh.astralAttempts ≤ s.worker.queueable
  read : ∀ scan attempts report, s.worker = .retry scan attempts report →
    s.sh.astralAttempts ≤ attempts

/-- The counter is within the limit, with room for the pass of a run that has not settled
one. -/
structure Within (s : St) : Prop extends Spent s where
  most : s.sh.astralAttempts + 1 ≤ astralRetryLimit + s.worker.settled

/-- A pass counts once, and is settled then. -/
theorem PassStep.settled {sh sh' : Shared} {env : Env} {call call' : Pass}
    (h : PassStep P sh env call sh' call') :
    sh'.astralAttempts + (WorkerPc.pass call).settled
      ≤ sh.astralAttempts + (WorkerPc.afterPass call').settled := by
  cases h with
  | claimed hstep => cases hstep <;> simp [WorkerPc.settled, WorkerPc.afterPass,
      Shared.i2cUnregisterDevice_eq]
  | release hstep => cases hstep <;> simp [WorkerPc.settled, WorkerPc.afterPass]
  | blocked | claim | put | returned => simp [WorkerPc.settled, WorkerPc.afterPass]

theorem WorkerPc.queueable_pass (call : Pass) :
    (WorkerPc.pass call).queueable = (WorkerPc.pass call).settled := rfl

theorem WorkerPc.queueable_afterPass (call : Pass) :
    (WorkerPc.afterPass call).queueable = (WorkerPc.afterPass call).settled := by
  unfold WorkerPc.afterPass
  split <;> rfl

theorem WorkerPc.one_le_queueable {worker : WorkerPc} (h : worker.settled = 1) :
    1 ≤ worker.queueable := by
  cases worker with
  | idle => decide
  | _ => exact h.ge

/-- After a reset there is nothing to ask for. -/
theorem Within.of_zero {s : St} (h : s.sh.astralAttempts = 0) : Within s where
  rearming _ := h
  queued _ := h.le.trans (Nat.zero_le _)
  read _ _ _ _ := h.le.trans (Nat.zero_le _)
  most := by rw [h]; exact Nat.le_add_right_of_le (by decide)

/-- Once it has returned, `astral_init` takes no step. -/
theorem Step.not_init {s s' : St} {a : Action} (h : Step P s a s') (hdone : s.init = .done)
    (env : Env) : a ≠ .init env := by
  rintro rfl
  cases h with
  | core hstep => cases hstep
  | refuse hinit =>
    rcases hinit with hinit | hinit <;> exact absurd (hdone.symm.trans hinit) (by simp)
  | cardPresent hinit | registerNotifier hinit | initPass hinit | initAttached hinit
  | initNotAttached hinit | initSchedule hinit => exact absurd (hdone.symm.trans hinit) (by simp)

/-- A step that leaves the work item and the threads alone, and does not count. -/
theorem Spent.core {s : St} {sh' : Shared} (h : Spent s) (hrearms : sh'.rearms = s.sh.rearms)
    (hpending : sh'.pending = s.sh.pending) (hattempts : sh'.astralAttempts = s.sh.astralAttempts) :
    Spent { s with sh := sh' } where
  rearming hne := hattempts.trans (h.rearming (hrearms ▸ hne))
  queued hset := hattempts.le.trans (h.queued (hpending ▸ hset))
  read scan attempts report heq := hattempts.le.trans (h.read scan attempts report heq)

/-- Once `astral_init` has returned, every step leaves queued work with attempts left. -/
theorem Spent.step {s s' : St} {a : Action} (h : Spent s) (hdone : s.init = .done)
    (hok : RearmAtOnce s a) (hstep : Step P s a s') : Spent s' := by
  have hinit := hstep.not_init hdone
  cases hstep with
  | core hstep =>
    cases hstep with
    | notifyAdd => exact (Within.of_zero rfl).toSpent
    | rearm hne =>
      refine (Within.of_zero ?_).toSpent
      exact h.rearming hne
    | removeAdapter =>
      obtain ⟨clients, client, gone, heq, -⟩ := s.sh.delAdapter_spec _
      rw [heq]
      exact h.core rfl rfl rfl
    | addAdapter | notifyIgnored | hwmonRead => exact h.core rfl rfl rfl
  | refuse | cardPresent | registerNotifier | initPass | initAttached | initNotAttached
  | initSchedule => exact absurd rfl (hinit _)
  | workerStart => exact ⟨h.rearming, fun hset => absurd hset (by simp), by simp⟩
  | @workerPass env call call' sh' hworker hstep =>
    have hrearms : s.sh.rearms = 0 := hok.resolve_right (by simp [Action.isRearm])
    have hframe := hstep.frame
    refine ⟨fun hne => absurd (hframe.rearms.trans hrearms) hne, fun hset => ?_, fun _ _ _ heq =>
      absurd heq ((WorkerPc.afterPass_ne _).2 _ _ _)⟩
    have hsettled := hstep.settled
    have hqueued := h.queued (hframe.pending ▸ hset)
    rw [hworker, WorkerPc.queueable_pass] at hqueued
    change sh'.astralAttempts ≤ (WorkerPc.afterPass call').queueable
    rw [WorkerPc.queueable_afterPass]
    omega
  | workerAttached hworker | workerNotAttached hworker | workerGiveUp hworker =>
    refine ⟨h.rearming, fun hset => (h.queued hset).trans ?_, by simp⟩
    rw [hworker]
    exact WorkerPc.one_le_queueable (by simp [WorkerPc.settled])
  | workerCount hworker =>
    refine ⟨h.rearming, fun hset => (h.queued hset).trans ?_, fun _ _ _ heq => ?_⟩
    · rw [hworker]
      exact WorkerPc.one_le_queueable rfl
    · obtain ⟨-, rfl, -⟩ := by simpa using heq
      exact le_rfl
  | workerRetry hworker hlimit =>
    -- what it queues has the attempts left that it has read
    have hread := h.read _ _ _ hworker
    refine ⟨h.rearming, fun _ => ?_, by simp⟩
    have hqueueable : WorkerPc.queueable .idle = astralRetryLimit - 1 := rfl
    change s.sh.astralAttempts ≤ WorkerPc.queueable .idle
    omega
  | exitStart | unregisterNotifier | wait | release | nothingToRelease | clear =>
    exact ⟨h.rearming, h.queued, h.read⟩
  | cancel => exact ⟨h.rearming, fun hset => absurd hset (by simp), h.read⟩
  | exitUnregister =>
    rw [Shared.i2cUnregisterDevice_eq]
    exact ⟨h.rearming, h.queued, h.read⟩

theorem Within.step {s s' : St} {a : Action} (h : Within s) (hdone : s.init = .done)
    (hok : RearmAtOnce s a) (hstep : Step P s a s') : Within s' := by
  refine ⟨h.toSpent.step hdone hok hstep, ?_⟩
  have hmost := h.most
  have hinit := hstep.not_init hdone
  cases hstep with
  | core hstep =>
    cases hstep with
    | notifyAdd => exact Nat.le_add_right_of_le (show 0 + 1 ≤ astralRetryLimit by decide)
    | removeAdapter =>
      obtain ⟨clients, client, gone, heq, -⟩ := s.sh.delAdapter_spec _
      rw [heq]
      exact hmost
    | addAdapter | notifyIgnored | rearm | hwmonRead => exact hmost
  | refuse | cardPresent | registerNotifier | initPass | initAttached | initNotAttached
  | initSchedule => exact absurd rfl (hinit _)
  | workerStart hpending hworker =>
    -- the run about to begin was queued with an attempt left for it
    have hqueued := h.queued hpending
    rw [hworker] at hqueued
    have hqueueable : WorkerPc.queueable .idle = astralRetryLimit - 1 := rfl
    have hlimit : 0 < astralRetryLimit := by decide
    change s.sh.astralAttempts + 1 ≤ astralRetryLimit + 0
    omega
  | @workerPass env call call' sh' hworker hstep =>
    have hsettled := hstep.settled
    rw [hworker] at hmost
    change sh'.astralAttempts + 1 ≤ astralRetryLimit + (WorkerPc.afterPass call').settled
    omega
  | workerAttached hworker | workerNotAttached hworker | workerCount hworker
  | workerRetry hworker | workerGiveUp hworker =>
    rw [hworker] at hmost
    exact hmost
  | exitUnregister =>
    rw [Shared.i2cUnregisterDevice_eq]
    exact hmost
  | exitStart | unregisterNotifier | cancel | wait | release | nothingToRelease | clear =>
    exact hmost

/-! ### From a re-arm on -/

/-- `astral_init` has returned for good. -/
theorem Step.init_done {s s' : St} {a : Action} (h : Step P s a s') (hdone : s.init = .done) :
    s'.init = .done := by
  have hinit := h.not_init hdone
  cases h with
  | refuse | cardPresent | registerNotifier | initPass | initAttached | initNotAttached
  | initSchedule => exact absurd rfl (hinit _)
  | _ => exact hdone

theorem Spent.run {s t : St} {l : List (St × Action)} (h : Spent s) (hdone : s.init = .done)
    (hp : Run (lifecycle P) s l t) (hok : Guarded RearmAtOnce l) : Spent t ∧ t.init = .done := by
  induction hp with
  | refl => exact ⟨h, hdone⟩
  | tail _ hnext ih =>
    obtain ⟨hl, ha⟩ := Guarded.append_iff.mp hok
    obtain ⟨hspent, hdone⟩ := ih hl
    have hstep := Step.of_next hnext
    exact ⟨hspent.step hdone (Guarded.singleton_iff.mp ha) hstep, hstep.init_done hdone⟩

/-- Up to the next re-arm the counter counts the failures, within the limit. -/
theorem Within.run {s t : St} {l : List (St × Action)} (h : Within s) (hdone : s.init = .done)
    (hp : Run (lifecycle P) s l t) (hok : Guarded RearmAtOnce l)
    (hquiet : Guarded (fun s a => ¬ Rearms P s a) l) :
    Within t ∧ t.init = .done ∧ Tallies s.sh t.sh := by
  induction hp with
  | refl => exact ⟨h, hdone, rfl⟩
  | tail _ hnext ih =>
    obtain ⟨hl, ha⟩ := Guarded.append_iff.mp hok
    obtain ⟨hm, hb⟩ := Guarded.append_iff.mp hquiet
    obtain ⟨hwithin, hdone, htallies⟩ := ih hl hm
    have hstep := Step.of_next hnext
    have hmore := next_tallies hnext (Guarded.singleton_iff.mp hb)
    refine ⟨hwithin.step hdone (Guarded.singleton_iff.mp ha) hstep, hstep.init_done hdone, ?_⟩
    unfold Tallies at htallies hmore ⊢
    omega

/-! ### At rest -/

/-- No work is queued or about to be, and the worker is idle or about to give up. -/
structure AtRest (s : St) : Prop where
  done : s.init = .done
  rearms : s.sh.rearms = 0
  pending : s.sh.pending = false
  worker : s.worker = .idle ∨
    ∃ scan attempts report, s.worker = .retry scan attempts report ∧ astralRetryLimit ≤ attempts

/-- The driver stays at rest until a re-arm. -/
theorem AtRest.step {s s' : St} {a : Action} (h : AtRest s) (hnext : next P s a = some s')
    (hquiet : ¬ Rearms P s a) : AtRest s' ∧ a ≠ .workerStart := by
  have hrearms : s'.sh.rearms = 0 := by
    have := next_rearms_le hnext hquiet
    rw [h.rearms] at this
    omega
  have hdone := h.done
  have hstep := Step.of_next hnext
  have hinit := hstep.not_init hdone
  have hkeep {sh' : Shared} {exit' : ExitPc} (hr : sh'.rearms = 0) (hp : sh'.pending = false) :
      AtRest { s with sh := sh', exit := exit' } := ⟨hdone, hr, hp, h.worker⟩
  -- a run in progress is one that has read an exhausted counter
  have hgiveUp {worker : WorkerPc} (hworker : s.worker = worker) : worker = .idle ∨
      ∃ scan attempts report, worker = .retry scan attempts report ∧ astralRetryLimit ≤ attempts :=
    hworker ▸ h.worker
  cases hstep with
  | core hstep =>
    -- the notifications are none that re-arm, and no callback is in progress
    have hother : a ≠ .workerStart := by rintro rfl; cases hstep
    refine ⟨hkeep hrearms ?_, hother⟩
    cases hstep with
    | rearm hne => exact absurd h.rearms hne
    | removeAdapter => exact (Shared.delAdapter_pending _ _).trans h.pending
    | addAdapter | notifyIgnored | notifyAdd | hwmonRead => exact h.pending
  | refuse | cardPresent | registerNotifier | initPass | initAttached | initNotAttached
  | initSchedule => exact absurd rfl (hinit _)
  | workerStart hpending => exact absurd (hpending.symm.trans h.pending) (by decide)
  -- a run that still has its pass to make is not in progress
  | workerPass hworker | workerAttached hworker | workerNotAttached hworker
  | workerCount hworker => exact absurd (hgiveUp hworker) (by simp)
  | workerRetry hworker hlimit =>
    rcases hgiveUp hworker with hidle | ⟨scan, attempts, report, heq, hspent⟩
    · exact absurd hidle (by simp)
    · obtain ⟨-, rfl, -⟩ := by simpa using heq
      omega
  | workerGiveUp => exact ⟨⟨hdone, hrearms, h.pending, Or.inl rfl⟩, by simp⟩
  | cancel => exact ⟨hkeep hrearms rfl, by simp⟩
  | exitUnregister =>
    refine ⟨hkeep hrearms ?_, by simp⟩
    rw [Shared.i2cUnregisterDevice_eq]
    exact h.pending
  | exitStart | unregisterNotifier | wait | release | nothingToRelease | clear =>
    exact ⟨hkeep hrearms h.pending, by simp⟩

theorem AtRest.run {s t : St} {l : List (St × Action)} (h : AtRest s)
    (hp : Run (lifecycle P) s l t) (hquiet : Guarded (fun s a => ¬ Rearms P s a) l) :
    AtRest t ∧ ∀ p ∈ l, p.2 ≠ .workerStart := by
  induction hp with
  | refl => exact ⟨h, by simp⟩
  | tail _ hnext ih =>
    obtain ⟨hl, ha⟩ := Guarded.append_iff.mp hquiet
    obtain ⟨hrest, hnone⟩ := ih hl
    obtain ⟨hrest', hstart⟩ := hrest.step hnext (Guarded.singleton_iff.mp ha)
    refine ⟨hrest', fun p hmem => ?_⟩
    rcases List.mem_append.mp hmem with hmem | hmem
    · exact hnone p hmem
    · obtain rfl := List.mem_singleton.mp hmem
      exact hstart

/-! ### The cycle ends -/

/-- **The retry cycle ends.** In every run in which a re-arm's reset and its queueing of the
work are one step, once `astral_init` has returned,

* from one re-arm to the next, at most `ASTRAL_RETRY_LIMIT` passes of the worker fail;
* when a run of the worker that has started since, or a later one, reads an exhausted
  counter, then up to the next re-arm no probe work is queued, and none is started. -/
theorem astral_retryCycle_ends :
    (∀ {s s₁ t : St} {adap : I2cAdapter} {l : List (St × Action)}, s.init = .done →
      Rearms P s (.notifyAdd adap) → next P s (.notifyAdd adap) = some s₁ →
      Run (lifecycle P) s₁ l t → Guarded RearmAtOnce l → Guarded (fun s a => ¬ Rearms P s a) l →
      t.sh.failures ≤ s₁.sh.failures + astralRetryLimit) ∧
    ∀ {u u₁ v v₁ t : St} {scan : AstralScan} {env : Env} {l m : List (St × Action)},
      u.init = .done → RearmAtOnce u .workerStart → next P u .workerStart = some u₁ →
      Run (lifecycle P) u₁ l v → Guarded RearmAtOnce l →
      v.worker = .count scan → astralRetryLimit ≤ v.sh.astralAttempts →
      next P v (.worker env) = some v₁ →
      Run (lifecycle P) v₁ m t → Guarded (fun s a => ¬ Rearms P s a) m →
      t.sh.pending = false ∧ ∀ p ∈ m, p.2 ≠ .workerStart := by
  constructor
  · intro s s₁ t adap l hdone ⟨hn, hmatch, hclient⟩ hadd hp hok hquiet
    have hs₁ := next_notifyAdd hadd hn hmatch
    rw [hclient, Option.isNone_none, if_pos rfl] at hs₁
    -- the re-arm sets the counter to zero, and what it then counts is failures of the worker
    have hzero : s₁.sh.astralAttempts = 0 := by rw [hs₁]
    have hdone₁ : s₁.init = .done := by rw [hs₁]; exact hdone
    obtain ⟨hwithin, -, htallies⟩ := (Within.of_zero hzero).run hdone₁ hp hok hquiet
    have hmost := hwithin.most
    have hsettled : t.worker.settled ≤ 1 := by
      unfold WorkerPc.settled
      split <;> decide
    unfold Tallies at htallies
    omega
  · intro u u₁ v v₁ t scan env l m hdone hok hstart hp hokl hcount hspent hread hm hquiet
    have hrearms : u.sh.rearms = 0 := hok.resolve_right (by simp [Action.isRearm])
    have hstart' := next_workerStart hstart
    -- no callback is in progress when the run starts, and the work it was is no longer pending
    have hfresh : Spent u₁ := by
      rw [hstart']
      exact ⟨fun hne => absurd hrearms hne, fun hset => absurd hset (by simp), by simp⟩
    obtain ⟨hv, hdonev⟩ := hfresh.run (by rw [hstart']; exact hdone) hp hokl
    have hlimit : 1 < astralRetryLimit := by decide
    have hrest : AtRest v₁ := by
      simp only [next, hcount, WorkerPc.step, Option.map_some] at hread
      obtain rfl := Option.some.inj hread
      refine ⟨hdonev, ?_, ?_, Or.inr ⟨_, _, _, rfl, hspent⟩⟩
      · by_contra hne
        have := hv.rearming hne
        omega
      · -- work queued by now would have been queued with attempts left
        by_contra hset
        have hqueued := hv.queued (Bool.eq_true_of_not_eq_false hset)
        rw [hcount] at hqueued
        change v.sh.astralAttempts ≤ 1 at hqueued
        omega
    obtain ⟨hrest', hnone⟩ := hrest.run hm hquiet
    exact ⟨hrest'.pending, hnone⟩

/-- A step between two re-arms. -/
def Between (P : Setup) (s : St) (a : Action) : Prop := RearmAtOnce s a ∧ ¬ Rearms P s a

instance (s : St) (a : Action) : Decidable (Between P s a) := inferInstanceAs (Decidable (_ ∧ _))

theorem Between.guarded {l : List (St × Action)} (h : Guarded (Between P) l) :
    Guarded RearmAtOnce l ∧ Guarded (fun s a => ¬ Rearms P s a) l :=
  ⟨fun p hp => (h p hp).1, fun p hp => (h p hp).2⟩

theorem run_of_execBy {ok : St → Action → Prop} [∀ s a, Decidable (ok s a)] {s t : St}
    {as : List Action} (h : System.execBy (next P) ok s as = some t) :
    ∃ l, Run (lifecycle P) s l t ∧ Guarded ok l :=
  System.execBy_run h

/-- Another adapter of the card arrives after a load that found the sensor adapter but got
no answer. -/
def otherArrives : List Action :=
  addSensor ++ loadRefused ++ [.addAdapter 2 (otherAdapter 1 2).name (otherAdapter 1 2).parent]

/-- Fifteen passes fail after the arrival, and then nothing is queued any more. -/
theorem astral_retryCycle_ends_refused :
    ∃ s₁ v t : St, v.sh.failures = s₁.sh.failures + 15 ∧
      v.sh.failures ≤ s₁.sh.failures + astralRetryLimit ∧ t.sh.pending = false := by
  have hrun : (System.exec (next oneCard) St.boot otherArrives).any (fun s =>
      decide (s.init = .done ∧ Rearms oneCard s (.notifyAdd (otherAdapter 1 2))) &&
      (next oneCard s (.notifyAdd (otherAdapter 1 2))).any fun s₁ =>
        (System.execBy (next oneCard) (Between oneCard) s₁
          (.rearm :: (List.replicate 14 workerRefused).flatten)).any fun u =>
            decide (u.init = .done ∧ RearmAtOnce u .workerStart) &&
            (next oneCard u .workerStart).any fun u₁ =>
              (System.execBy (next oneCard) (Between oneCard) u₁
                (List.replicate 6 (.worker .refused))).any fun v =>
                  decide (v.worker = .count ⟨1, 1⟩ ∧ astralRetryLimit ≤ v.sh.astralAttempts ∧
                    v.sh.failures = s₁.sh.failures + 15) &&
                  (next oneCard v (.worker .idle)).any fun v₁ =>
                    (System.execBy (next oneCard) (Between oneCard) v₁ [.worker .idle]).isSome)
        = true := by
    decide +kernel
  obtain ⟨s, -, ⟨hdone, hrearms⟩, hs⟩ := System.any_decide_and_iff.mp hrun
  obtain ⟨s₁, hadd, hs₁⟩ := Option.any_eq_true _ _ |>.mp hs
  obtain ⟨u, hexecu, ⟨hdoneu, hok⟩, hu⟩ := System.any_decide_and_iff.mp hs₁
  obtain ⟨u₁, hstart, hu₁⟩ := Option.any_eq_true _ _ |>.mp hu
  obtain ⟨v, hexecv, ⟨hcount, hspent, hfailures⟩, hv⟩ := System.any_decide_and_iff.mp hu₁
  obtain ⟨v₁, hread, hv₁⟩ := Option.any_eq_true _ _ |>.mp hv
  obtain ⟨t, hexect⟩ := Option.isSome_iff_exists.mp hv₁
  obtain ⟨l, hl, hbetween⟩ := run_of_execBy hexecu
  obtain ⟨m, hm, hbetween'⟩ := run_of_execBy hexecv
  obtain ⟨n, hn, hbetween''⟩ := run_of_execBy hexect
  -- the failures of the whole cycle, and then the run that gives up
  obtain ⟨hlimit, hrest⟩ := astral_retryCycle_ends (P := oneCard)
  have hnext : (lifecycle oneCard).step u .workerStart u₁ := hstart
  have hall : Guarded (Between oneCard) (l ++ [(u, .workerStart)] ++ m) :=
    Guarded.append_iff.mpr ⟨Guarded.append_iff.mpr
      ⟨hbetween, Guarded.singleton_iff.mpr ⟨hok, id⟩⟩, hbetween'⟩
  obtain ⟨honce, hquiet⟩ := Between.guarded hall
  exact ⟨s₁, v, t, hfailures,
    hlimit hdone hrearms hadd ((hl.tail hnext).trans hm) honce hquiet,
    (hrest hdoneu hok hstart hm (Between.guarded hbetween').1 hcount hspent hread hn
      (Between.guarded hbetween'').2).1⟩

/-- The worker's last run before the limit has begun when `astral_init`, which has been slow,
queues the work and returns. -/
def initOvertaken : List Action :=
  addSensor ++ List.replicate 2 (.init .idle) ++ List.replicate 6 (.init .refused) ++
    [.addAdapter 2 (otherAdapter 1 2).name (otherAdapter 1 2).parent,
      .notifyAdd (otherAdapter 1 2), .rearm] ++
    (List.replicate 14 workerRefused).flatten ++
    [.workerStart, .init .idle] ++ List.replicate 6 (.worker .refused)

/-- **A run that does not end the cycle.** It reads an exhausted counter after `astral_init`
has returned, and gives up. The work that `astral_init` has queued meanwhile is still there. -/
theorem astral_retryCycle_overtaken :
    ¬ ∀ (P : Setup) (v v₁ t : St) (scan : AstralScan) (env : Env) (m : List (St × Action)),
      ReachableBy (lifecycle P) RearmAtOnce v → v.init = .done →
      v.worker = .count scan → v.sh.astralClient = none →
      astralRetryLimit ≤ v.sh.astralAttempts → next P v (.worker env) = some v₁ →
      Run (lifecycle P) v₁ m t → Guarded (Between P) m → t.worker = .idle →
      t.sh.pending = false := by
  intro h
  have hrun : (System.execBy (next oneCard) RearmAtOnce St.boot initOvertaken).any (fun v =>
      decide (v.init = .done ∧ v.worker = .count ⟨1, 1⟩ ∧ v.sh.astralClient = none ∧
        astralRetryLimit ≤ v.sh.astralAttempts) &&
      (next oneCard v (.worker .idle)).any fun v₁ =>
        (System.execBy (next oneCard) (Between oneCard) v₁ [.worker .idle]).any fun t =>
          decide (t.worker = .idle ∧ t.sh.pending = true)) = true := by
    decide +kernel
  obtain ⟨v, hexec, ⟨hdone, hcount, hclient, hspent⟩, hv⟩ := System.any_decide_and_iff.mp hrun
  obtain ⟨v₁, hread, hv₁⟩ := Option.any_eq_true _ _ |>.mp hv
  obtain ⟨t, hexect, hidle, hpending⟩ := System.any_decide_iff.mp hv₁
  obtain ⟨m, hm, hbetween⟩ := run_of_execBy hexect
  -- the run that has read the counter queues another all the same
  have hno := h oneCard v v₁ t _ _ m (System.execBy_reachableBy rfl hexec) hdone hcount hclient
    hspent hread hm hbetween hidle
  exact absurd (hpending.symm.trans hno) (by decide)

end Astral
