import AstralHwmon.Driver.Passes

/-!
# The claim, and the one pass in flight

`astral_claiming` is a lock taken and dropped under another lock. `Control` is
the invariant behind it: the flag is up exactly while a pass holds the claim, no
two do, and the phases of load and unload are where they should be. It holds in
every reachable state (`control_reachable`).

Because at most one pass is in flight, who owns the chip does not depend on
which thread is running it. `Own` keeps what ownership is about — the shared
state, the position of the pass in flight, and that of `astral_exit` — and
`Move` says what a step does to it. `Step.move` is the simulation of the threads
by this smaller machine, and `own_invariant` the induction rule it gives: an
invariant of ownership needs one case per rule of `Move`, and no thread.
-/

open Transition

namespace Astral

variable {P : Setup}

/-! ### Positions -/

/-- Where the pass of `astral_init` stands, while it holds the claim. -/
def InitPc.claimed : InitPc → Option ClaimedPc
  | .pass call => call.claimed
  | _ => none

/-- Where the worker's pass stands, while it holds the claim. -/
def WorkerPc.claimed : WorkerPc → Option ClaimedPc
  | .pass call => call.claimed
  | _ => none

/-- The claimed pass in flight. -/
def St.flight (s : St) : Option ClaimedPc := s.init.claimed.or s.worker.claimed

/-- The claimed part of a pass an action runs, with what it meets. -/
def St.acting (s : St) : Action → Option (ClaimedPc × Env)
  | .init env => s.init.claimed.map fun pc => (pc, env)
  | .worker env => s.worker.claimed.map fun pc => (pc, env)
  | _ => none

/-- The notifier has been registered. -/
def InitPc.loaded : InitPc → Bool
  | .start | .registerNotifier | .failed _ => false
  | _ => true

/-- `astral_exit` has taken the notifier off the chain. -/
def ExitPc.deaf : ExitPc → Bool
  | .idle | .unregisterNotifier => false
  | _ => true

/-- `astral_exit` has cancelled the work. -/
def ExitPc.quiet : ExitPc → Bool
  | .release | .unregister _ | .clear | .done => true
  | _ => false

@[simp] theorem InitPc.claimed_afterPass (call : Pass) :
    (InitPc.afterPass call).claimed = call.claimed := by
  obtain ⟨pc, scan⟩ := call
  cases pc <;> rfl

@[simp] theorem WorkerPc.claimed_afterPass (call : Pass) :
    (WorkerPc.afterPass call).claimed = call.claimed := by
  obtain ⟨pc, scan⟩ := call
  cases pc <;> rfl

@[simp] theorem InitPc.loaded_afterPass (call : Pass) :
    (InitPc.afterPass call).loaded = true := by
  unfold InitPc.afterPass
  split_ifs <;> rfl

theorem Pass.eq_of_claimed {call : Pass} {pc : ClaimedPc} (h : call.claimed = some pc) :
    call = ⟨.claimed pc, call.scan⟩ := by
  obtain ⟨pos, scan⟩ := call
  cases pos <;> simp_all [Pass.claimed]

theorem InitPc.eq_of_claimed {init : InitPc} {pc : ClaimedPc} (h : init.claimed = some pc) :
    ∃ scan, init = .pass ⟨.claimed pc, scan⟩ := by
  cases init with
  | pass call => exact ⟨call.scan, by rw [← Pass.eq_of_claimed h]⟩
  | _ => exact absurd h (by simp [InitPc.claimed])

theorem WorkerPc.eq_of_claimed {worker : WorkerPc} {pc : ClaimedPc}
    (h : worker.claimed = some pc) : ∃ scan, worker = .pass ⟨.claimed pc, scan⟩ := by
  cases worker with
  | pass call => exact ⟨call.scan, by rw [← Pass.eq_of_claimed h]⟩
  | _ => exact absurd h (by simp [WorkerPc.claimed])

/-! ### What the steps leave alone -/

/-- What no step of a pass touches: the notifier and the work item. -/
structure Shared.Frame (sh sh' : Shared) : Prop where
  notifier : sh'.notifier = sh.notifier
  rearms : sh'.rearms = sh.rearms
  pending : sh'.pending = sh.pending
  canceling : sh'.canceling = sh.canceling

theorem ClaimedStep.frame {sh sh' : Shared} {env : Env} {pc : ClaimedPc}
    {pc' : Option ClaimedPc} (h : ClaimedStep P sh env pc sh' pc') : sh.Frame sh' := by
  cases h <;> constructor <;> simp [Shared.i2cUnregisterDevice_eq]

/-- The flag goes down with the step that gives up the claim. -/
theorem ClaimedStep.flag {sh sh' : Shared} {env : Env} {pc : ClaimedPc}
    {pc' : Option ClaimedPc} (h : ClaimedStep P sh env pc sh' pc') :
    sh'.astralClaiming = (pc'.isSome && sh.astralClaiming) := by
  cases h <;> simp [Shared.i2cUnregisterDevice_eq]

theorem PassStep.frame {sh sh' : Shared} {env : Env} {call call' : Pass}
    (h : PassStep P sh env call sh' call') : sh.Frame sh' := by
  cases h with
  | claimed hstep | release hstep => exact hstep.frame
  | blocked | claim | put | returned => exact ⟨rfl, rfl, rfl, rfl⟩

/-- A pass raises the flag when it takes the claim, and drops it when it gives
it up. -/
theorem PassStep.claiming {sh sh' : Shared} {env : Env} {call call' : Pass}
    (h : PassStep P sh env call sh' call') :
    (call.claimed = none ∧ call'.claimed = none ∧ sh' = sh) ∨
      (call.claimed = none ∧ call'.claimed = some .walk ∧ sh.astralClient = none ∧
        sh.astralClaiming = false ∧ sh' = { sh with astralClaiming := true }) ∨
      ∃ pc, call.claimed = some pc ∧ ClaimedStep P sh env pc sh' call'.claimed ∧
        sh'.astralClaiming = (call'.claimed.isSome && sh.astralClaiming) := by
  cases h with
  | blocked => exact Or.inl ⟨rfl, rfl, rfl⟩
  | claim hclient hclaiming => exact Or.inr (Or.inl ⟨rfl, rfl, hclient, hclaiming, rfl⟩)
  -- inside the claim the flag is only ever dropped, with the claim itself
  | claimed hstep => exact Or.inr (Or.inr ⟨_, rfl, hstep, hstep.flag⟩)
  | release hstep => exact Or.inr (Or.inr ⟨_, rfl, hstep, hstep.flag⟩)
  | put => exact Or.inl ⟨rfl, rfl, rfl⟩
  | returned => exact Or.inl ⟨rfl, rfl, rfl⟩

/-- Outside the threads clients only go, and the pointer is only cleared. -/
theorem CoreStep.frame {sh sh' : Shared} {a : Action} (h : CoreStep P sh a sh') :
    sh'.notifier = sh.notifier ∧ sh'.canceling = sh.canceling ∧
      sh'.astralClaiming = sh.astralClaiming ∧ sh'.clients ⊆ sh.clients ∧
      (sh'.astralClient = sh.astralClient ∨
        sh.notifier = true ∧ sh'.astralClient = none) := by
  cases h with
  | removeAdapter =>
    obtain ⟨clients, client, gone, heq, hsub, hptr, -⟩ := sh.delAdapter_spec _
    rw [heq]
    exact ⟨rfl, rfl, rfl, hsub, hptr⟩
  | addAdapter | notifyIgnored | notifyAdd | rearm | hwmonRead =>
    exact ⟨rfl, rfl, rfl, fun _ h => h, Or.inl rfl⟩

/-- Without a notifier and a callback in progress, no step outside the threads
arms the work. -/
theorem CoreStep.deaf {sh sh' : Shared} {a : Action} (h : CoreStep P sh a sh')
    (hn : sh.notifier = false) (hr : sh.rearms = 0) :
    sh'.rearms = 0 ∧ sh'.pending = sh.pending := by
  cases h with
  | removeAdapter => exact ⟨(sh.delAdapter_rearms _).trans hr, sh.delAdapter_pending _⟩
  | notifyAdd _ hon => exact absurd hon (by simp [hn])
  | rearm hne => exact absurd hr hne
  | addAdapter | notifyIgnored | hwmonRead => exact ⟨hr, rfl⟩

/-! ### The control invariant -/

/-- Where the threads can be relative to each other, and to the claim flag. -/
structure Control (s : St) : Prop where
  claiming : s.sh.astralClaiming = (s.init.claimed.isSome || s.worker.claimed.isSome)
  exclusive : s.init.claimed = none ∨ s.worker.claimed = none
  dormant : s.init.loaded = false → s.sh.notifier = false ∧ s.sh.rearms = 0 ∧
    s.sh.pending = false ∧ s.worker = .idle ∧ s.sh.astralClient = none ∧ s.sh.clients = []
  exiting : s.exit ≠ .idle → s.init = .done
  deaf : s.exit.deaf = true → s.sh.notifier = false ∧ s.sh.rearms = 0
  canceled : s.exit = .wait → s.sh.pending = false ∧ s.sh.canceling = true
  quiet : s.exit.quiet = true → s.worker = .idle ∧ s.sh.pending = false

theorem Control.boot : Control St.boot where
  claiming := rfl
  exclusive := Or.inl rfl
  dormant _ := ⟨rfl, rfl, rfl, rfl, rfl, rfl⟩
  exiting h := absurd rfl h
  deaf h := absurd h (by decide)
  canceled h := absurd h (by decide)
  quiet h := absurd h (by decide)

theorem Control.core {s : St} {a : Action} {sh' : Shared} (hc : Control s)
    (h : CoreStep P s.sh a sh') : Control { s with sh := sh' } := by
  obtain ⟨hn, hcan, hcl, hsub, hptr⟩ := h.frame
  refine ⟨hcl.trans hc.claiming, hc.exclusive, ?_, hc.exiting, ?_, ?_, ?_⟩
  · -- before the notifier is registered there is nothing to delete and nobody to tell
    intro hload
    obtain ⟨hoff, hrearms, hpending, hworker, hclient, hclients⟩ := hc.dormant hload
    obtain ⟨hr, hp⟩ := h.deaf hoff hrearms
    refine ⟨hn.trans hoff, hr, hp.trans hpending, hworker, ?_, ?_⟩
    · rcases hptr with hptr | hptr
      · exact hptr.trans hclient
      · exact hptr.2
    · exact List.eq_nil_of_subset_nil (hclients ▸ hsub)
  · intro hdeaf
    obtain ⟨hoff, hrearms⟩ := hc.deaf hdeaf
    exact ⟨hn.trans hoff, (h.deaf hoff hrearms).1⟩
  · -- without the notifier no callback can arm the work that was cancelled
    intro hwait
    obtain ⟨hoff, hrearms⟩ := hc.deaf (hwait ▸ rfl)
    obtain ⟨hpending, hcanceling⟩ := hc.canceled hwait
    exact ⟨(h.deaf hoff hrearms).2.trans hpending, hcan.trans hcanceling⟩
  · intro hquiet
    have hdeaf : s.exit.deaf = true := by
      cases hexit : s.exit <;> simp [hexit, ExitPc.quiet, ExitPc.deaf] at hquiet ⊢
    obtain ⟨hoff, hrearms⟩ := hc.deaf hdeaf
    obtain ⟨hworker, hpending⟩ := hc.quiet hquiet
    exact ⟨hworker, (h.deaf hoff hrearms).2.trans hpending⟩

/-- The flag after a step of one thread's pass, beside another thread `other`. -/
theorem PassStep.flag {sh sh' : Shared} {env : Env} {call call' : Pass}
    {other : Option ClaimedPc} (h : PassStep P sh env call sh' call')
    (hexcl : call.claimed = none ∨ other = none)
    (hflag : sh.astralClaiming = (call.claimed.isSome || other.isSome)) :
    sh'.astralClaiming = (call'.claimed.isSome || other.isSome) ∧
      (call'.claimed = none ∨ other = none) := by
  rcases h.claiming with ⟨hold, hnew, rfl⟩ | ⟨hold, hnew, -, hfree, rfl⟩ | ⟨pc, hold, -, hnew⟩
  · -- the call does not reach the claim
    rw [hnew, hflag, hold]
    exact ⟨rfl, Or.inl rfl⟩
  · -- the flag was down, so no other thread holds the claim
    have hother : other = none := by simpa [hold, hfree] using hflag.symm
    rw [hnew, hother]
    exact ⟨rfl, Or.inr rfl⟩
  · -- the call holds the claim, alone
    have hother : other = none := hexcl.resolve_left (by simp [hold])
    rw [hnew, hflag, hold, hother]
    exact ⟨by simp, Or.inr rfl⟩

/-- A step of `astral_init` up to its return. -/
theorem Control.ofInit {s : St} {sh' : Shared} {init' : InitPc} (hc : Control s)
    (hlive : s.init ≠ .done)
    (hflag : sh'.astralClaiming = (init'.claimed.isSome || s.worker.claimed.isSome))
    (hexcl : init'.claimed = none ∨ s.worker.claimed = none)
    (hload : init'.loaded = false → s.init.loaded = false ∧ sh' = s.sh) :
    Control { s with sh := sh', init := init' } := by
  -- `astral_exit` waits for the module to be loaded
  have hexit : s.exit = .idle := by
    by_contra hne
    exact hlive (hc.exiting hne)
  refine ⟨hflag, hexcl, ?_, ?_, ?_, ?_, ?_⟩
  · intro hload'
    obtain ⟨hold, rfl⟩ := hload hload'
    exact hc.dormant hold
  · intro hne
    exact absurd hexit hne
  · intro hdeaf
    exact absurd hdeaf (by simp [hexit, ExitPc.deaf])
  · intro hwait
    exact absurd hwait (by simp [hexit])
  · intro hquiet
    exact absurd hquiet (by simp [hexit, ExitPc.quiet])

/-- A step of the worker, or its start. -/
theorem Control.ofWorker {s : St} {sh' : Shared} {worker' : WorkerPc} (hc : Control s)
    (hlive : s.worker ≠ .idle ∨ s.sh.pending = true)
    (hflag : sh'.astralClaiming = (s.init.claimed.isSome || worker'.claimed.isSome))
    (hexcl : s.init.claimed = none ∨ worker'.claimed = none)
    (hn : sh'.notifier = s.sh.notifier) (hr : sh'.rearms = s.sh.rearms)
    (hcan : sh'.canceling = s.sh.canceling)
    (hp : s.sh.canceling = true → s.sh.pending = false → sh'.pending = false) :
    Control { s with sh := sh', worker := worker' } := by
  -- which neither the dormant nor the quiet phase allows
  have hbusy : ¬ (s.worker = .idle ∧ s.sh.pending = false) := by
    rintro ⟨hidle, hpending⟩
    rcases hlive with hlive | hlive
    · exact hlive hidle
    · exact absurd hlive (by simp [hpending])
  refine ⟨hflag, hexcl, ?_, hc.exiting, ?_, ?_, ?_⟩
  · intro hload
    obtain ⟨-, -, hpending, hidle, -⟩ := hc.dormant hload
    exact absurd ⟨hidle, hpending⟩ hbusy
  · intro hdeaf
    obtain ⟨hoff, hrearms⟩ := hc.deaf hdeaf
    exact ⟨hn.trans hoff, hr.trans hrearms⟩
  · intro hwait
    obtain ⟨hpending, hcanceling⟩ := hc.canceled hwait
    exact ⟨hp hcanceling hpending, hcan.trans hcanceling⟩
  · intro hquiet
    exact absurd (hc.quiet hquiet) hbusy

/-- A step of `astral_exit`. -/
theorem Control.ofExit {s : St} {sh' : Shared} {exit' : ExitPc} (hc : Control s)
    (hinit : s.init = .done) (hflag : sh'.astralClaiming = s.sh.astralClaiming)
    (hdeaf : exit'.deaf = true → sh'.notifier = false ∧ sh'.rearms = 0)
    (hwait : exit' = .wait → sh'.pending = false ∧ sh'.canceling = true)
    (hquiet : exit'.quiet = true → s.worker = .idle ∧ sh'.pending = false) :
    Control { s with sh := sh', exit := exit' } := by
  refine ⟨hflag.trans hc.claiming, hc.exclusive, ?_, fun _ => hinit, hdeaf, hwait, hquiet⟩
  intro hload
  exact absurd hload (by simp [hinit, InitPc.loaded])

theorem Control.initPass {s : St} {env : Env} {call call' : Pass} {sh' : Shared}
    (hc : Control s) (hinit : s.init = .pass call) (h : PassStep P s.sh env call sh' call') :
    Control { s with sh := sh', init := .afterPass call' } := by
  have hold : s.init.claimed = call.claimed := by rw [hinit]; rfl
  obtain ⟨hflag, hexcl⟩ := h.flag (hold ▸ hc.exclusive) (hold ▸ hc.claiming)
  refine hc.ofInit (by simp [hinit]) ?_ ?_ (fun hload => absurd hload (by simp))
  · rw [InitPc.claimed_afterPass]; exact hflag
  · rw [InitPc.claimed_afterPass]; exact hexcl

theorem Control.workerPass {s : St} {env : Env} {call call' : Pass} {sh' : Shared}
    (hc : Control s) (hworker : s.worker = .pass call)
    (h : PassStep P s.sh env call sh' call') :
    Control { s with sh := sh', worker := .afterPass call' } := by
  have hold : s.worker.claimed = call.claimed := by rw [hworker]; rfl
  obtain ⟨hflag, hexcl⟩ := h.flag (hold ▸ hc.exclusive.symm)
    (hold ▸ (Bool.or_comm _ _ ▸ hc.claiming))
  obtain ⟨hn, hr, hp, hcan⟩ := h.frame
  refine hc.ofWorker (Or.inl (by simp [hworker])) ?_ ?_ hn hr hcan
    (fun _ hpending => hp.trans hpending)
  · rw [WorkerPc.claimed_afterPass, Bool.or_comm]; exact hflag
  · rw [WorkerPc.claimed_afterPass]; exact hexcl.symm

/-- **Every step preserves the control invariant.** -/
theorem Control.step {s s' : St} {a : Action} (hc : Control s) (h : Step P s a s') :
    Control s' := by
  have hflag := hc.claiming
  cases h with
  | core hstep => exact hc.core hstep
  | initPass hinit hstep => exact hc.initPass hinit hstep
  | workerPass hworker hstep => exact hc.workerPass hworker hstep
  -- `astral_init` up to its return: none of these positions holds the claim
  | refuse hinit =>
    refine hc.ofInit ?_ ?_ (Or.inl rfl) (fun _ => ⟨?_, rfl⟩) <;>
      rcases hinit with hinit | hinit <;> simp_all [InitPc.claimed, InitPc.loaded]
  | cardPresent hinit =>
    refine hc.ofInit (by simp [hinit]) ?_ (Or.inl rfl) (fun _ => ⟨by rw [hinit]; rfl, rfl⟩)
    rw [hflag, hinit]; rfl
  | registerNotifier hinit | initAttached hinit | initNotAttached hinit | initSchedule hinit =>
    refine hc.ofInit (by simp [hinit]) ?_ (Or.inl rfl) (fun hload => absurd hload (by decide))
    rw [hflag, hinit]; rfl
  | workerStart hpending hworker =>
    refine hc.ofWorker (Or.inr hpending) ?_ (Or.inr rfl) rfl rfl rfl (fun _ _ => rfl)
    rw [hflag, hworker]; rfl
  -- the worker, and then `astral_exit`, outside the claim
  | workerAttached hworker | workerNotAttached hworker | workerCount hworker
  | workerGiveUp hworker =>
    refine hc.ofWorker (Or.inl (by simp [hworker])) ?_ (Or.inr rfl) rfl rfl rfl (fun _ h => h)
    rw [hflag, hworker]; rfl
  | workerRetry hworker =>
    -- the item cannot be queued while `astral_exit` waits for it
    refine hc.ofWorker (Or.inl (by simp [hworker])) ?_ (Or.inr rfl) rfl rfl rfl ?_
    · rw [hflag, hworker]; rfl
    · intro hcanceling hpending
      simp [hcanceling, hpending]
  | exitStart hinit =>
    exact hc.ofExit hinit rfl (fun h => absurd h (by decide)) (fun h => absurd h (by decide))
      (fun h => absurd h (by decide))
  | unregisterNotifier hexit hrearms =>
    exact hc.ofExit (hc.exiting (by simp [hexit])) rfl (fun _ => ⟨rfl, hrearms⟩)
      (fun h => absurd h (by decide)) (fun h => absurd h (by decide))
  | cancel hexit =>
    exact hc.ofExit (hc.exiting (by simp [hexit])) rfl (fun _ => hc.deaf (hexit ▸ rfl))
      (fun _ => ⟨rfl, rfl⟩) (fun h => absurd h (by decide))
  -- from here on the worker is idle, and nothing is left that could queue the work
  | wait hexit hworker =>
    exact hc.ofExit (hc.exiting (by simp [hexit])) rfl (fun _ => hc.deaf (hexit ▸ rfl))
      (fun h => absurd h (by decide)) (fun _ => ⟨hworker, (hc.canceled hexit).1⟩)
  | release hexit =>
    exact hc.ofExit (hc.exiting (by simp [hexit])) rfl (fun _ => hc.deaf (hexit ▸ rfl))
      (fun h => absurd h (by simp)) (fun _ => hc.quiet (hexit ▸ rfl))
  | nothingToRelease hexit =>
    exact hc.ofExit (hc.exiting (by simp [hexit])) rfl (fun _ => hc.deaf (hexit ▸ rfl))
      (fun h => absurd h (by decide)) (fun _ => hc.quiet (hexit ▸ rfl))
  | exitUnregister hexit =>
    rw [Shared.i2cUnregisterDevice_eq]
    exact hc.ofExit (hc.exiting (by simp [hexit])) rfl (fun _ => hc.deaf (hexit ▸ rfl))
      (fun h => absurd h (by decide)) (fun _ => hc.quiet (hexit ▸ rfl))
  | clear hexit =>
    exact hc.ofExit (hc.exiting (by simp [hexit])) rfl (fun _ => hc.deaf (hexit ▸ rfl))
      (fun h => absurd h (by decide)) (fun _ => hc.quiet (hexit ▸ rfl))

theorem control_reachable {s : St} (h : Reachable (lifecycle P) s) : Control s :=
  Reachable.invariant (fun _ h₀ => h₀ ▸ Control.boot)
    (fun _ _ _ hc hstep => hc.step (Step.of_next hstep)) h

/-! ### Ownership -/

/-- What ownership of the chip is about. -/
structure Own where
  sh : Shared
  flight : Option ClaimedPc
  exit : ExitPc

/-- The threads as ownership sees them: which of the two runs the pass is forgotten. -/
def St.own (s : St) : Own := ⟨s.sh, s.flight, s.exit⟩

/-- `astral_exit` has not looked at the driver's pointer yet. -/
def ExitPc.undecided : ExitPc → Bool
  | .idle | .unregisterNotifier | .cancel | .wait | .release => true
  | _ => false

/-- What a step does to ownership. An action comes with the claimed part of a pass
it runs, if it runs one. -/
inductive Move (P : Setup) (o : Own) : Action → Option (ClaimedPc × Env) → Own → Prop
  /-- The i2c core, the notifier or a reader. -/
  | core {a : Action} {sh' : Shared} : CoreStep P o.sh a sh' → Move P o a none { o with sh := sh' }
  /-- A thread moves on, or deals with the work item. -/
  | control {a : Action} {act : Option (ClaimedPc × Env)} {pending canceling reported : Bool}
      {reports : List Report} {exit' : ExitPc} :
      exit' = o.exit ∨ o.exit.undecided = true ∧ exit'.undecided = true →
      Move P o a act
        { o with
          sh :=
            { o.sh with
              pending := pending
              canceling := canceling
              astralStageReported := reported
              reports := reports }
          exit := exit' }
  | load {a : Action} : o.flight = none → o.exit = .idle → o.sh.astralClient = none →
      o.sh.clients = [] →
      Move P o a none { o with sh := { o.sh with notifier := true } }
  | unload {a : Action} : o.exit = .unregisterNotifier →
      Move P o a none { o with sh := { o.sh with notifier := false }, exit := .cancel }
  | claim {a : Action} {act : Option (ClaimedPc × Env)} : o.flight = none →
      o.exit.quiet = false → o.sh.astralClient = none →
      Move P o a act { o with sh := { o.sh with astralClaiming := true }, flight := some .walk }
  | pass {a : Action} {env : Env} {pc : ClaimedPc} {sh' : Shared} {pc' : Option ClaimedPc} :
      o.flight = some pc → o.exit.quiet = false → ClaimedStep P o.sh env pc sh' pc' →
      Move P o a (some (pc, env)) { o with sh := sh', flight := pc' }
  | release {a : Action} {client : I2cClient} : o.flight = none → o.sh.notifier = false →
      o.exit = .release → o.sh.astralClient = some client →
      Move P o a none { o with exit := .unregister client }
  | nothingToRelease {a : Action} : o.flight = none → o.exit = .release →
      o.sh.astralClient = none → Move P o a none { o with exit := .done }
  | unregister {a : Action} {client : I2cClient} : o.flight = none → o.sh.notifier = false →
      o.exit = .unregister client →
      Move P o a none { o with sh := o.sh.i2cUnregisterDevice client, exit := .clear }
  | clear {a : Action} : o.flight = none → o.exit = .clear →
      Move P o a none { o with sh := { o.sh with astralClient := none }, exit := .done }

/-- A step of a call, as a move of the pass in flight; `other` is the pass of the
other thread. -/
theorem PassStep.move {o : Own} {a : Action} {env : Env} {call call' : Pass} {sh' : Shared}
    {other : Option ClaimedPc} (h : PassStep P o.sh env call sh' call')
    (hexcl : call.claimed = none ∨ other = none)
    (hflag : o.sh.astralClaiming = (call.claimed.isSome || other.isSome))
    (hflight : o.flight = call.claimed.or other) (hexit : o.exit.quiet = false) :
    Move P o a (call.claimed.map fun pc => (pc, env))
      { o with sh := sh', flight := call'.claimed.or other } := by
  rcases h.claiming with ⟨hold, hnew, rfl⟩ | ⟨hold, hnew, hclient, hfree, rfl⟩ |
    ⟨pc, hold, hstep, -⟩
  · -- outside the claim a call changes nothing that is shared
    have hsame : call'.claimed.or other = o.flight := by rw [hflight, hold, hnew]
    rw [hsame]
    exact .control (Or.inl rfl)
  · have hother : other = none := by simpa [hold, hfree] using hflag.symm
    rw [hnew]
    refine .claim ?_ hexit hclient
    rw [hflight, hold, hother]
    rfl
  · have hother : other = none := hexcl.resolve_left (by simp [hold])
    rw [hother, Option.or_none, hold]
    refine .pass ?_ hexit hstep
    rw [hflight, hold, Option.some_or]

theorem Move.ofControl {s s' : St} {a : Action} {act : Option (ClaimedPc × Env)}
    {pending canceling reported : Bool} {reports : List Report} (hflight : s'.flight = s.flight)
    (hsh : s'.sh =
      { s.sh with
        pending := pending
        canceling := canceling
        astralStageReported := reported
        reports := reports })
    (hexit : s'.exit = s.exit ∨ s.exit.undecided = true ∧ s'.exit.undecided = true) :
    Move P s.own a act s'.own := by
  rw [St.own, St.own, hflight, hsh]
  exact .control hexit

/-- **The threads are simulated by the one pass in flight.** -/
theorem Step.move {s s' : St} {a : Action} (hc : Control s) (h : Step P s a s') :
    Move P s.own a (s.acting a) s'.own := by
  -- once `astral_exit` has cancelled the work, no pass is in flight
  have hlanded : s.exit.quiet = true → s.own.flight = none := by
    intro hquiet
    have hinit := hc.exiting (by rintro hidle; simp [hidle, ExitPc.quiet] at hquiet)
    rw [St.own, St.flight, hinit, (hc.quiet hquiet).1]
    rfl
  have hworking : s.init ≠ .done ∨ s.worker ≠ .idle → s.exit.quiet = false := by
    intro hlive
    by_contra hquiet
    rw [Bool.not_eq_false] at hquiet
    have hinit := hc.exiting (by rintro hidle; simp [hidle, ExitPc.quiet] at hquiet)
    exact hlive.elim (fun h => h hinit) (fun h => h (hc.quiet hquiet).1)
  have hoff : s.exit.deaf = true → s.sh.notifier = false := fun hdeaf => (hc.deaf hdeaf).1
  cases h with
  | core hstep =>
    -- no thread runs, so no pass does
    have hact : s.acting a = none := by cases hstep <;> rfl
    rw [hact]
    exact .core hstep
  | refuse hinit =>
    refine .ofControl ?_ rfl (Or.inl rfl)
    rcases hinit with hinit | hinit <;> simp [St.flight, InitPc.claimed, hinit]
  | cardPresent hinit | initAttached hinit | initNotAttached hinit | initSchedule hinit =>
    exact .ofControl (by simp [St.flight, InitPc.claimed, hinit]) rfl (Or.inl rfl)
  | registerNotifier hinit =>
    -- the notifier joins a driver that owns nothing yet
    obtain ⟨-, -, -, hworker, hclient, hclients⟩ := hc.dormant (hinit ▸ rfl)
    have hflight : s.flight = none := by rw [St.flight, hinit, hworker]; rfl
    have hact (env : Env) : s.acting (.init env) = none := by
      rw [St.acting, hinit]; rfl
    have hnew : St.own { s with sh := { s.sh with notifier := true }, init := .pass .start } =
        { s.own with sh := { s.sh with notifier := true } } := by
      simp [St.own, St.flight, hinit, InitPc.claimed, Pass.claimed, Pass.start]
    rw [hact, hnew]
    refine .load hflight ?_ hclient hclients
    by_contra hne
    exact absurd (hc.exiting hne) (by simp [hinit])
  | @initPass env call call' sh' hinit hstep =>
    have hold : s.init.claimed = call.claimed := by rw [hinit]; rfl
    have hact : s.acting (.init env) = call.claimed.map fun pc => (pc, env) := by
      rw [St.acting, hold]
    have hnew : St.own { s with sh := sh', init := .afterPass call' } =
        { s.own with sh := sh', flight := call'.claimed.or s.worker.claimed } := by
      simp [St.own, St.flight]
    rw [hact, hnew]
    refine PassStep.move (o := s.own) hstep (hold ▸ hc.exclusive) (hold ▸ hc.claiming) ?_
      (hworking (Or.inl (by simp [hinit])))
    rw [St.own, St.flight, hold]
  | workerStart hpending hworker =>
    exact .ofControl (by simp [St.flight, WorkerPc.claimed, Pass.claimed, Pass.start, hworker])
      rfl (Or.inl rfl)
  | @workerPass env call call' sh' hworker hstep =>
    have hold : s.worker.claimed = call.claimed := by rw [hworker]; rfl
    have hact : s.acting (.worker env) = call.claimed.map fun pc => (pc, env) := by
      rw [St.acting, hold]
    obtain ⟨-, hexcl'⟩ := hstep.flag (hold ▸ hc.exclusive.symm)
      (hold ▸ (Bool.or_comm _ _ ▸ hc.claiming))
    -- only one of the two threads holds the claim, so their order does not matter
    have hcomm {p q : Option ClaimedPc} (h : p = none ∨ q = none) : p.or q = q.or p := by
      rcases h with rfl | rfl <;> simp
    have hnew : St.own { s with sh := sh', worker := .afterPass call' } =
        { s.own with sh := sh', flight := call'.claimed.or s.init.claimed } := by
      simp [St.own, St.flight, hcomm hexcl']
    rw [hact, hnew]
    refine PassStep.move (o := s.own) hstep (hold ▸ hc.exclusive.symm)
      (hold ▸ (Bool.or_comm _ _ ▸ hc.claiming)) ?_ (hworking (Or.inr (by simp [hworker])))
    rw [St.own, St.flight, hcomm hc.exclusive, hold]
  | workerAttached hworker | workerNotAttached hworker | workerCount hworker
  | workerRetry hworker | workerGiveUp hworker =>
    exact .ofControl (by simp [St.flight, WorkerPc.claimed, hworker]) rfl (Or.inl rfl)
  -- up to the release, what `astral_exit` does decides nothing about the chip
  | exitStart hinit hexit => exact .ofControl rfl rfl (Or.inr ⟨hexit ▸ rfl, rfl⟩)
  | unregisterNotifier hexit hrearms => exact .unload hexit
  | cancel hexit => exact .ofControl rfl rfl (Or.inr ⟨hexit ▸ rfl, rfl⟩)
  | wait hexit hworker => exact .ofControl rfl rfl (Or.inr ⟨hexit ▸ rfl, rfl⟩)
  | release hexit hclient =>
    exact .release (hlanded (hexit ▸ rfl)) (hoff (hexit ▸ rfl)) hexit hclient
  | nothingToRelease hexit hclient => exact .nothingToRelease (hlanded (hexit ▸ rfl)) hexit hclient
  | exitUnregister hexit => exact .unregister (hlanded (hexit ▸ rfl)) (hoff (hexit ▸ rfl)) hexit
  | clear hexit => exact .clear (hlanded (hexit ▸ rfl)) hexit

/-- **Invariant rule of ownership.** What the module starts with and every move
of a step that meets the condition preserves holds in every state reached by such
steps. -/
theorem own_invariant {ok : St → Action → Prop} {I : Own → Prop} (hboot : I St.boot.own)
    (hmove : ∀ s a o, Control s → I s.own → ok s a → Move P s.own a (s.acting a) o → I o)
    {s : St} (h : ReachableBy (lifecycle P) ok s) : I s.own := by
  have hinv : Control s ∧ I s.own := by
    refine ReachableBy.invariant (I := fun s => Control s ∧ I s.own) ?_ ?_ h
    · rintro _ rfl
      exact ⟨Control.boot, hboot⟩
    · rintro s a t ⟨hc, hI⟩ hok hnext
      have hstep := Step.of_next hnext
      exact ⟨hc.step hstep, hmove s a t.own hc hI hok (hstep.move hc)⟩
  exact hinv.2

/-- The rule for every run. -/
theorem own_invariant_reachable {I : Own → Prop} (hboot : I St.boot.own)
    (hmove : ∀ (s : St) a o, I s.own → Move P s.own a (s.acting a) o → I o)
    {s : St} (h : Reachable (lifecycle P) s) : I s.own :=
  own_invariant hboot (fun s a o _ hI _ hm => hmove s a o hI hm) (reachableBy_true_iff.mpr h)

end Astral
