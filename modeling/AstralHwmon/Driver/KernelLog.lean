import AstralHwmon.Driver.Stages
import AstralHwmon.Driver.Unload

/-!
# One line per retry cycle

The worker says once what it is waiting for and once that it has given up, and then is silent
until a notification starts the cycle over. `astral_stage_reported` is there for the first; for
the second there is no flag, only that a run of the worker which gives up queues no other.

Neither is a matter of the worker alone. The notifier lowers the flag while a run that has
already read it is on its way to printing, and it arms work that is queued, running, or about
to be queued by `astral_init`. What bounds the lines is what each of them uses up: the flag or
the right to print that was read off it (`St.waitingLeft`), and the run itself or whatever can
still start one (`St.gaveUpLeft`).
-/

open Transition

namespace Astral

variable {P : Setup}

/-- The line says that the worker goes on waiting. -/
def Report.isWaiting : Report → Bool
  | .waiting _ => true
  | .gaveUp _ => false

namespace Shared

/-- The lines that say what the worker waits for. -/
def waitings (sh : Shared) : ℕ := sh.reports.countP Report.isWaiting

/-- The lines that say it has given up. -/
def gaveUps (sh : Shared) : ℕ := sh.reports.countP fun r => !r.isWaiting

end Shared

/-! ### What a line uses up -/

/-- The run has found the flag down, and is to print. -/
def WorkerPc.toReport : WorkerPc → ℕ
  | .retry _ _ true => 1
  | _ => 0

/-- A run is in progress. -/
def WorkerPc.busy : WorkerPc → ℕ
  | .idle => 0
  | _ => 1

/-- `astral_init` may still queue the work. -/
def InitPc.toSchedule : InitPc → ℕ
  | .done | .failed _ => 0
  | _ => 1

/-- The lines on what it waits for, and those still to come in this cycle. -/
def St.waitingLeft (s : St) : ℕ :=
  s.sh.waitings + s.worker.toReport + (!s.sh.astralStageReported).toNat

/-- The lines on giving up, and the runs that may still print one. -/
def St.gaveUpLeft (s : St) : ℕ :=
  s.sh.gaveUps + s.worker.busy + s.sh.pending.toNat + s.sh.rearms + s.init.toSchedule

/-! ### The steps that print -/

/-- The last step of a run: it queues another and may print what it waits for, or it prints
that it has given up. -/
theorem next_retry {s s' : St} {env : Env} {scan : AstralScan} {attempts : ℕ} {report : Bool}
    (hworker : s.worker = .retry scan attempts report)
    (hnext : next P s (.worker env) = some s') :
    (∃ reports, s' =
        { s with sh := { s.sh.scheduleWork with reports := reports }, worker := .idle } ∧
      (reports = s.sh.reports ∨
        report = true ∧ reports = .waiting scan.stage :: s.sh.reports)) ∨
    s' = { s with
      sh := { s.sh with reports := .gaveUp scan.stage :: s.sh.reports }
      worker := .idle } := by
  simp only [next, hworker, WorkerPc.step] at hnext
  -- it queues and prints, it queues in silence, or it gives up
  split_ifs at hnext with hlimit hprint
  · obtain rfl := by simpa using hnext
    refine Or.inl ⟨_, ?_, Or.inr ⟨hprint.1, rfl⟩⟩
    rw [Shared.scheduleWork_eq, Shared.scheduleWork_eq]
  · obtain rfl := by simpa using hnext
    refine Or.inl ⟨s.sh.reports, ?_, Or.inl rfl⟩
    rw [Shared.scheduleWork_eq]
  · obtain rfl := by simpa using hnext
    exact Or.inr rfl

/-- What no other step touches but the notifier and the worker's own count. -/
structure Silent (sh sh' : Shared) : Prop where
  reports : sh'.reports = sh.reports
  flag : sh'.astralStageReported = sh.astralStageReported

theorem ClaimedStep.silent {sh sh' : Shared} {env : Env} {pc : ClaimedPc}
    {pc' : Option ClaimedPc} (h : ClaimedStep P sh env pc sh' pc') : Silent sh sh' := by
  refine ⟨h.reports, ?_⟩
  cases h with
  | unregister => rw [Shared.i2cUnregisterDevice_eq]
  | _ => rfl

theorem PassStep.silent {sh sh' : Shared} {env : Env} {call call' : Pass}
    (h : PassStep P sh env call sh' call') : Silent sh sh' := by
  cases h with
  | claimed hstep | release hstep => exact hstep.silent
  | blocked | claim | put | returned => exact ⟨rfl, rfl⟩

theorem Shared.delAdapter_silent (sh : Shared) (adap : I2cAdapter) :
    Silent sh (sh.delAdapter adap) := by
  obtain ⟨clients, client, gone, heq, -⟩ := sh.delAdapter_spec adap
  rw [heq]
  exact ⟨rfl, rfl⟩

/-! ### No more lines than cycles -/

/-- A step that prints nothing and leaves the flag. -/
theorem Silent.waitingLeft_le {s s' : St} (h : Silent s.sh s'.sh) (n : ℕ)
    (hworker : s'.worker.toReport ≤ s.worker.toReport) :
    s'.waitingLeft ≤ s.waitingLeft + n := by
  unfold St.waitingLeft Shared.waitings
  rw [h.reports, h.flag]
  omega

/-- A pass has nothing to print. -/
theorem WorkerPc.toReport_afterPass (call : Pass) : (WorkerPc.afterPass call).toReport = 0 := by
  unfold WorkerPc.afterPass
  split_ifs <;> rfl

theorem next_retry_waitingLeft {s s' : St} {env : Env} {scan : AstralScan} {attempts : ℕ}
    {report : Bool} (hworker : s.worker = .retry scan attempts report)
    (hnext : next P s (.worker env) = some s') : s'.waitingLeft ≤ s.waitingLeft := by
  unfold St.waitingLeft Shared.waitings
  rcases next_retry hworker hnext with ⟨reports, rfl, hreports⟩ | rfl
  · rw [Shared.scheduleWork_eq]
    rcases hreports with rfl | ⟨rfl, rfl⟩
    · simp [WorkerPc.toReport]
    · rw [hworker, List.countP_cons_of_pos rfl]
      simp only [WorkerPc.toReport]
      omega
  · rw [List.countP_cons_of_neg (by simp [Report.isWaiting])]
    simp [WorkerPc.toReport]

/-- **A line on what the worker waits for takes the flag**, and only the notifier gives it
back. -/
theorem next_waitingLeft {s s' : St} {a : Action} (hnext : next P s a = some s') :
    s'.waitingLeft ≤ s.waitingLeft + if Rearms P s a then 1 else 0 := by
  cases Step.of_next hnext with
  | core hstep =>
    cases hstep with
    -- the reset lowers the flag, which is one more line
    | @notifyAdd adap =>
      rw [if_pos (rearms_of_grown hnext rfl)]
      have hflag : (!s.sh.astralStageReported).toNat ≤ 1 := Bool.toNat_le _
      simp only [St.waitingLeft, Shared.waitings, Bool.not_false, Bool.toNat_true]
      omega
    | removeAdapter => exact (Shared.delAdapter_silent _ _).waitingLeft_le _ le_rfl
    | addAdapter | notifyIgnored | rearm | hwmonRead => exact Nat.le_add_right _ _
  | initPass _ hstep => exact hstep.silent.waitingLeft_le _ le_rfl
  | workerPass hworker hstep =>
    refine hstep.silent.waitingLeft_le _ ?_
    rw [WorkerPc.toReport_afterPass]
    exact Nat.zero_le _
  | workerStart | workerAttached | workerNotAttached =>
    apply Silent.waitingLeft_le (s := s)
    · exact ⟨rfl, rfl⟩
    · exact Nat.zero_le _
  | workerCount hworker =>
    -- the right to print is the flag the run has found down
    simp only [St.waitingLeft, Shared.waitings, hworker]
    cases s.sh.astralStageReported <;> simp [WorkerPc.toReport]
  -- the line is printed, and the right to it is spent
  | workerRetry hworker | workerGiveUp hworker =>
    exact (next_retry_waitingLeft hworker hnext).trans (Nat.le_add_right _ _)
  | exitUnregister =>
    rw [Shared.i2cUnregisterDevice_eq]
    exact Silent.waitingLeft_le ⟨rfl, rfl⟩ _ le_rfl
  | _ => exact Silent.waitingLeft_le ⟨rfl, rfl⟩ _ le_rfl

theorem next_retry_gaveUpLeft {s s' : St} {env : Env} {scan : AstralScan} {attempts : ℕ}
    {report : Bool} (hworker : s.worker = .retry scan attempts report)
    (hnext : next P s (.worker env) = some s') : s'.gaveUpLeft ≤ s.gaveUpLeft := by
  unfold St.gaveUpLeft Shared.gaveUps
  rcases next_retry hworker hnext with ⟨reports, rfl, hreports⟩ | rfl
  · have hpending := Bool.toNat_le (s.sh.pending || !s.sh.canceling)
    have hsame : reports.countP (fun r => !r.isWaiting) =
        s.sh.reports.countP fun r => !r.isWaiting := by
      rcases hreports with rfl | ⟨-, rfl⟩
      · rfl
      · rw [List.countP_cons_of_neg (by simp [Report.isWaiting])]
    rw [Shared.scheduleWork_eq, hworker]
    simp only [WorkerPc.busy, hsame]
    omega
  · -- the run that gives up queues no other
    rw [hworker, List.countP_cons_of_pos rfl]
    simp only [WorkerPc.busy]
    omega

/-- A step that prints nothing and starts nothing. -/
theorem Silent.gaveUpLeft_le {s s' : St} (h : Silent s.sh s'.sh) (n : ℕ)
    (hleft : s'.worker.busy + s'.sh.pending.toNat + s'.sh.rearms + s'.init.toSchedule ≤
      s.worker.busy + s.sh.pending.toNat + s.sh.rearms + s.init.toSchedule + n) :
    s'.gaveUpLeft ≤ s.gaveUpLeft + n := by
  unfold St.gaveUpLeft Shared.gaveUps
  rw [h.reports]
  omega

theorem InitPc.toSchedule_afterPass (call : Pass) :
    (InitPc.afterPass call).toSchedule = 1 := by
  unfold InitPc.afterPass
  split_ifs <;> rfl

theorem WorkerPc.busy_afterPass (call : Pass) : (WorkerPc.afterPass call).busy = 1 := by
  unfold WorkerPc.afterPass
  split_ifs <;> rfl

/-- **A line on giving up takes the run that prints it**, and only the notifier starts a run
that no earlier one has queued. -/
theorem next_gaveUpLeft {s s' : St} {a : Action} (hnext : next P s a = some s') :
    s'.gaveUpLeft ≤ s.gaveUpLeft + if Rearms P s a then 1 else 0 := by
  have hqueued := Bool.toNat_le (s.sh.pending || !s.sh.canceling)
  cases Step.of_next hnext with
  | core hstep =>
    cases hstep with
    -- a notification that resets the counter is what buys another line
    | @notifyAdd adap =>
      rw [if_pos (rearms_of_grown hnext rfl)]
      simp only [St.gaveUpLeft, Shared.gaveUps]
      omega
    -- a callback in progress becomes pending work
    | rearm hne =>
      simp only [St.gaveUpLeft, Shared.gaveUps]
      omega
    | @removeAdapter adap =>
      refine (s.sh.delAdapter_silent adap).gaveUpLeft_le _ ?_
      simp
    | addAdapter | notifyIgnored | hwmonRead => exact Nat.le_add_right _ _
  | refuse | initAttached =>
    simp only [St.gaveUpLeft, Shared.gaveUps, InitPc.toSchedule]
    omega
  | cardPresent hinit | registerNotifier hinit | initNotAttached hinit | initSchedule hinit =>
    simp only [St.gaveUpLeft, Shared.gaveUps, InitPc.toSchedule, hinit]
    omega
  | initPass hinit hstep =>
    refine hstep.silent.gaveUpLeft_le _ ?_
    rw [InitPc.toSchedule_afterPass, hinit, hstep.frame.pending, hstep.frame.rearms]
    exact Nat.le_add_right _ _
  | workerPass hworker hstep =>
    refine hstep.silent.gaveUpLeft_le _ ?_
    rw [WorkerPc.busy_afterPass, hworker, hstep.frame.pending, hstep.frame.rearms]
    exact Nat.le_add_right _ _
  -- and pending work a run
  | workerStart hpending hworker =>
    simp only [St.gaveUpLeft, Shared.gaveUps, hpending, hworker, WorkerPc.busy, Bool.toNat_true,
      Bool.toNat_false]
    omega
  | workerAttached hworker | workerNotAttached hworker | workerCount hworker =>
    simp only [St.gaveUpLeft, Shared.gaveUps, hworker, WorkerPc.busy]
    omega
  | workerRetry hworker | workerGiveUp hworker =>
    exact (next_retry_gaveUpLeft hworker hnext).trans (Nat.le_add_right _ _)
  | cancel =>
    simp only [St.gaveUpLeft, Shared.gaveUps, Bool.toNat_false]
    omega
  | exitUnregister =>
    rw [Shared.i2cUnregisterDevice_eq]
    exact Nat.le_add_right _ _
  | exitStart | unregisterNotifier | wait | release | nothingToRelease | clear =>
    exact Nat.le_add_right _ _

/-- **One line of each kind per retry cycle.** In every run from the load of the module there is
at most one line on what the worker waits for, and at most one on its having given up, for the
cycle that the load begins and for each that a notification begins. -/
theorem astral_kernelLog_bounded {t : St} {l : List (St × Action)}
    (hp : Run (lifecycle P) St.boot l t) :
    t.sh.waitings ≤ 1 + countSteps (Rearms P) l ∧
      t.sh.gaveUps ≤ 1 + countSteps (Rearms P) l := by
  have hwaiting : t.waitingLeft ≤ St.boot.waitingLeft + countSteps (Rearms P) l :=
    hp.potential_le fun _ _ _ hstep => next_waitingLeft hstep
  have hgaveUp : t.gaveUpLeft ≤ St.boot.gaveUpLeft + countSteps (Rearms P) l :=
    hp.potential_le fun _ _ _ hstep => next_gaveUpLeft hstep
  -- at the load the flag is down, and `astral_init` has its work still to queue
  rw [show St.boot.waitingLeft = 1 from rfl, St.waitingLeft] at hwaiting
  rw [show St.boot.gaveUpLeft = 1 from rfl, St.gaveUpLeft] at hgaveUp
  constructor
  · omega
  · omega

/-- Two cycles without a chip, the second begun by an adapter that arrives when the first is
over. -/
def twoCycles : List Action :=
  otherAlone ++ (List.replicate 14 workerRefused).flatten ++
    [.addAdapter 3 (otherAdapter 1 3).name (otherAdapter 1 3).parent,
      .notifyAdd (otherAdapter 1 3), .rearm] ++
    (List.replicate 15 workerRefused).flatten

/-- They print all the lines there can be. -/
theorem astral_kernelLog_bounded_twoCycles :
    ∃ (t : St) (l : List (St × Action)), Run (lifecycle oneCard) St.boot l t ∧
      countSteps (Rearms oneCard) l = 1 ∧ t.sh.waitings = 2 ∧ t.sh.gaveUps = 2 := by
  have hrun : (System.exec (next oneCard) St.boot twoCycles).any (fun t =>
      decide (countSteps (Rearms oneCard) (System.trace (next oneCard) St.boot twoCycles) = 1 ∧
        2 ≤ t.sh.waitings ∧ 2 ≤ t.sh.gaveUps)) = true := by
    decide +kernel
  obtain ⟨t, hexec, hone, hwaiting, hgaveUp⟩ := System.any_decide_iff.mp hrun
  have hp : Run (lifecycle oneCard) St.boot _ t := System.exec_trace hexec
  obtain ⟨hwaiting', hgaveUp'⟩ := astral_kernelLog_bounded hp
  rw [hone] at hwaiting' hgaveUp'
  exact ⟨t, _, hp, hone, le_antisymm hwaiting' hwaiting, le_antisymm hgaveUp' hgaveUp⟩

end Astral
