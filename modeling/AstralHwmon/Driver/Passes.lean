import AstralHwmon.Driver.Lifecycle

/-!
# What a step of the driver can do

The inversion of the step function, stated once: `ClaimedStep` for the claimed
part of a pass, `PassStep` for a call of `astral_probe_once`, `CoreStep` for the
steps that belong to no thread, and `Step` for the system (`Step.of_next`). Every
rule carries its guard and spells out the state it leads to. What the later
modules prove about runs goes through these rules only.

`delAdapter_spec` is the same for the one operation that is a loop.
-/

namespace Astral

variable {P : Setup}

/-! ### The claimed part of a pass -/

/-- The rules of `claimedStep`. -/
inductive ClaimedStep (P : Setup) (sh : Shared) (env : Env) :
    ClaimedPc → Shared → Option ClaimedPc → Prop
  | walk : ClaimedStep P sh env .walk sh (some (.get (sh.walk P).adapterId))
  | found {id : ℤ} {adap : I2cAdapter} : adap ∈ sh.adapters →
      ClaimedStep P sh env (.get id) sh (some (.gate adap))
  | notFound {id : ℤ} : ClaimedStep P sh env (.get id) sh (some (.settle none))
  | create {adap : I2cAdapter} : (astralCardMatches adap P.allowUnknown).isSome = true →
      astralAdapterSelected P adap = true →
      ClaimedStep P sh env (.gate adap)
        { sh with
          clients := ⟨sh.nextObj, adap, P.addr⟩ :: sh.clients
          nextObj := sh.nextObj + 1
          log := .created ⟨sh.nextObj, adap, P.addr⟩ :: sh.log }
        (some (.publish ⟨sh.nextObj, adap, P.addr⟩))
  | notCreated {adap : I2cAdapter} :
      ClaimedStep P sh env (.gate adap) sh (some (.settle none))
  | publish {client : I2cClient} :
      ClaimedStep P sh env (.publish client) { sh with astralClient := some client }
        (some (.alloc client))
  | alloc {client : I2cClient} : ClaimedStep P sh env (.alloc client) sh (some (.refresh client))
  | allocFail {client : I2cClient} : env.fault.isSome = true →
      ClaimedStep P sh env (.alloc client) sh (some (.unpublish client))
  | read {client : I2cClient} : env.io.transfer.Good →
      ClaimedStep P sh env (.refresh client)
        { sh with log := .transfer client env.io.transfer :: sh.log } (some (.register client))
  | readFail {client : I2cClient} : ¬ env.io.transfer.Good →
      ClaimedStep P sh env (.refresh client)
        { sh with log := .transfer client env.io.transfer :: sh.log } (some (.unpublish client))
  | register {client : I2cClient} : env.fault.isSome = false →
      ClaimedStep P sh env (.register client) { sh with log := .hwmon client :: sh.log }
        (some (.settle (some client)))
  | registerFail {client : I2cClient} : env.fault.isSome = true →
      ClaimedStep P sh env (.register client) sh (some (.unpublish client))
  | unpublish {client : I2cClient} : sh.astralClient = some client →
      ClaimedStep P sh env (.unpublish client) { sh with astralClient := none }
        (some (.unregister client))
  | unpublished {client : I2cClient} : sh.astralClient ≠ some client →
      ClaimedStep P sh env (.unpublish client) sh (some (.unregister client))
  | unregister {client : I2cClient} :
      ClaimedStep P sh env (.unregister client) (sh.i2cUnregisterDevice client)
        (some (.settle none))
  | settled {client : I2cClient} :
      ClaimedStep P sh env (.settle (some client)) { sh with astralClaiming := false } none
  | failed :
      ClaimedStep P sh env (.settle none)
        { sh with
          astralClaiming := false
          astralAttempts := sh.astralAttempts + 1
          log := .passFailed :: sh.log } none

/-- The refresh of a fresh `struct astral_data` makes a transfer, and succeeds
exactly on a good one. -/
theorem astralRefresh_zeroed (ttl : Jiffies) (io : CallIo) :
    (astralRefresh ttl .zeroed io).transfer = some io.transfer ∧
      ((astralRefresh ttl .zeroed io).ret = .ok () ∧ io.transfer.Good ∨
        (∃ e, (astralRefresh ttl .zeroed io).ret = .error e) ∧ ¬ io.transfer.Good) := by
  unfold astralRefresh
  rcases astralRefreshLocked_cases ttl .zeroed io with
    ⟨hit, -⟩ | ⟨-, hbad, e, heq⟩ | ⟨-, frame, hread, hpl, heq⟩
  · -- nothing is cached yet
    simp [AstralData.fresh, AstralData.zeroed] at hit
  · rw [heq]
    exact ⟨rfl, Or.inr ⟨⟨e, rfl⟩, hbad⟩⟩
  · rw [heq]
    exact ⟨rfl, Or.inl ⟨rfl, frame, hread, hpl⟩⟩

theorem claimedStep_cases (sh : Shared) (env : Env) (pc : ClaimedPc) :
    ClaimedStep P sh env pc (claimedStep P sh env pc).1 (claimedStep P sh env pc).2 := by
  cases pc with
  | walk => exact .walk
  | get id =>
    simp only [claimedStep]
    split
    next adap hget =>
      refine .found ?_
      -- a negative id is never looked up, and the lookup yields a registered adapter
      split_ifs at hget
      unfold Shared.i2cGetAdapter at hget
      split_ifs at hget
      exact List.mem_of_find?_eq_some hget
    next => exact .notFound
  | gate adap =>
    simp only [claimedStep]
    split_ifs with hgate
    -- both halves of the gate hold of the very adapter the client is created on
    · rw [Bool.and_eq_true] at hgate
      unfold Shared.i2cNewClientDevice
      split_ifs
      · exact .notCreated
      · exact .create hgate.1 hgate.2
    · exact .notCreated
  | publish client => exact .publish
  | alloc client =>
    simp only [claimedStep]
    split_ifs with hfault
    · exact .allocFail hfault
    · exact .alloc
  | refresh client =>
    obtain ⟨htr, ⟨hret, hgood⟩ | ⟨⟨e, hret⟩, hbad⟩⟩ := astralRefresh_zeroed P.ttl env.io
    · simp only [claimedStep, htr, hret]
      exact .read hgood
    · simp only [claimedStep, htr, hret]
      exact .readFail hbad
  | register client =>
    simp only [claimedStep]
    split_ifs with hfault
    · exact .registerFail hfault
    · exact .register (Bool.eq_false_iff.mpr hfault)
  | unpublish client =>
    simp only [claimedStep]
    split_ifs with heq
    · exact .unpublish heq
    · exact .unpublished heq
  | unregister client => exact .unregister
  | settle client =>
    cases client with
    | some client => exact .settled
    | none => exact .failed

/-! ### A call of `astral_probe_once` -/

/-- The rules of `Pass.step`. -/
inductive PassStep (P : Setup) (sh : Shared) (env : Env) : Pass → Shared → Pass → Prop
  | blocked {scan : AstralScan} : sh.astralClient.isSome = true ∨ sh.astralClaiming = true →
      PassStep P sh env ⟨.claim, scan⟩ sh ⟨.returned, scan⟩
  | claim {scan : AstralScan} : sh.astralClient = none → sh.astralClaiming = false →
      PassStep P sh env ⟨.claim, scan⟩ { sh with astralClaiming := true } ⟨.claimed .walk, scan⟩
  | claimed {pc pc' : ClaimedPc} {sh' : Shared} {scan scan' : AstralScan} :
      ClaimedStep P sh env pc sh' (some pc') →
      PassStep P sh env ⟨.claimed pc, scan⟩ sh' ⟨.claimed pc', scan'⟩
  | release {pc : ClaimedPc} {sh' : Shared} {scan scan' : AstralScan} :
      ClaimedStep P sh env pc sh' none →
      PassStep P sh env ⟨.claimed pc, scan⟩ sh' ⟨.put, scan'⟩
  | put {scan : AstralScan} : PassStep P sh env ⟨.put, scan⟩ sh ⟨.returned, scan⟩
  | returned {scan : AstralScan} : PassStep P sh env ⟨.returned, scan⟩ sh ⟨.returned, scan⟩

theorem Pass.step_cases (sh : Shared) (env : Env) (call : Pass) :
    PassStep P sh env call (call.step P sh env).1 (call.step P sh env).2 := by
  obtain ⟨pc, scan⟩ := call
  cases pc with
  | claim =>
    simp only [Pass.step]
    -- a published chip and a raised flag turn the caller away alike
    split_ifs with hbusy
    · exact .blocked (by simpa using hbusy)
    · simp only [Bool.or_eq_true, not_or, Bool.not_eq_true, Option.isSome_eq_false_iff,
        Option.isNone_iff_eq_none] at hbusy
      exact .claim hbusy.1 hbusy.2
  | claimed pc =>
    have hstep := claimedStep_cases (P := P) sh env pc
    -- the claimed part says by its next position whether the claim was given up
    simp only [Pass.step]
    cases hnext : (claimedStep P sh env pc).2 with
    | some pc' => exact .claimed (hnext ▸ hstep)
    | none => exact .release (hnext ▸ hstep)
  | put => exact .put
  | returned => exact .returned

/-! ### The i2c core -/

theorem Shared.scheduleWork_eq (sh : Shared) :
    sh.scheduleWork = { sh with pending := sh.pending || !sh.canceling } := by
  unfold Shared.scheduleWork
  split_ifs with hc
  · have hpending : (sh.pending || !sh.canceling) = sh.pending := by simp [hc]
    rw [hpending]
  · have hpending : (sh.pending || !sh.canceling) = true := by simp [hc]
    rw [hpending]

/-- A client's leaving the bus touches the list of clients and the driver's
pointer to it. -/
theorem Shared.dropClient_eq (sh : Shared) (client : I2cClient) :
    sh.dropClient client =
      { sh with
        clients := sh.clients.erase client
        astralClient := if sh.notifier = true ∧ sh.astralClient = some client then none
          else sh.astralClient } := by
  unfold Shared.dropClient Shared.astralBusNotifyDel
  by_cases hn : sh.notifier = true
  · by_cases hc : sh.astralClient = some client <;> simp [hn, hc]
  · simp [hn]

theorem Shared.i2cUnregisterDevice_eq (sh : Shared) (client : I2cClient) :
    sh.i2cUnregisterDevice client =
      { sh with
        clients := sh.clients.erase client
        astralClient := if sh.notifier = true ∧ sh.astralClient = some client then none
          else sh.astralClient
        log := .unregistered client :: sh.log } := by
  rw [Shared.i2cUnregisterDevice, Shared.dropClient_eq]
  rfl

/-- Deleting an adapter leaves the driver's clients on the other adapters, records
the ones it deletes, and clears the driver's pointer if it hears of it. -/
theorem Shared.delAdapter_spec (sh : Shared) (adap : I2cAdapter) :
    ∃ clients client gone, sh.delAdapter adap =
        { sh with
          adapters := sh.adapters.erase adap
          clients := clients
          astralClient := client
          log := gone ++ sh.log } ∧
      clients ⊆ sh.clients ∧
      (client = sh.astralClient ∨ sh.notifier = true ∧ client = none) ∧
      ∀ e ∈ gone, ∃ c ∈ sh.clients, e = .deleted c := by
  -- the loop, from any state it may be in
  suffices loop : ∀ (l : List I2cClient) (t : Shared), l ⊆ sh.clients →
      ∃ clients client gone,
        l.foldl (fun sh client => (sh.note (.deleted client)).dropClient client) t =
          { t with clients := clients, astralClient := client, log := gone ++ t.log } ∧
        clients ⊆ t.clients ∧ (client = t.astralClient ∨ t.notifier = true ∧ client = none) ∧
        ∀ e ∈ gone, ∃ c ∈ sh.clients, e = .deleted c by
    exact loop _ _ (List.filter_subset_self _)
  intro l
  -- on the clients still to be deleted, each step with the state it leaves
  induction l with
  | nil => exact fun t _ => ⟨t.clients, t.astralClient, [], rfl, fun _ h => h, Or.inl rfl, by simp⟩
  | cons c l ih =>
    intro t hl
    obtain ⟨hc, hl⟩ := List.cons_subset.mp hl
    obtain ⟨clients, client, gone, heq, hsub, hptr, hgone⟩ :=
      ih ((t.note (.deleted c)).dropClient c) hl
    rw [Shared.dropClient_eq] at heq hsub hptr
    refine ⟨clients, client, gone ++ [.deleted c], ?_, ?_, ?_, ?_⟩
    · rw [List.foldl_cons, Shared.dropClient_eq, heq, List.append_assoc]
      rfl
    · exact fun _ hmem => List.erase_subset (hsub hmem)
    · rcases hptr with hptr | hptr
      -- the rest of the loop kept the pointer this deletion left
      · by_cases hheard : t.notifier = true ∧ t.astralClient = some c
        · exact Or.inr ⟨hheard.1, hptr.trans (if_pos hheard)⟩
        · exact Or.inl (hptr.trans (if_neg hheard))
      · exact Or.inr hptr
    · intro e he
      rcases List.mem_append.mp he with he | he
      · exact hgone e he
      · exact ⟨c, hc, by simpa using he⟩

@[simp] theorem Shared.delAdapter_rearms (sh : Shared) (adap : I2cAdapter) :
    (sh.delAdapter adap).rearms = sh.rearms := by
  obtain ⟨clients, client, gone, heq, -⟩ := sh.delAdapter_spec adap
  rw [heq]

@[simp] theorem Shared.delAdapter_pending (sh : Shared) (adap : I2cAdapter) :
    (sh.delAdapter adap).pending = sh.pending := by
  obtain ⟨clients, client, gone, heq, -⟩ := sh.delAdapter_spec adap
  rw [heq]

/-- The rules of the steps that belong to no thread of the driver. -/
inductive CoreStep (P : Setup) (sh : Shared) : Action → Shared → Prop
  | addAdapter {nr : ℕ} {name : CText.CStr} {parent : Option ParentDevice} :
      CoreStep P sh (.addAdapter nr name parent) (sh.addAdapter ⟨sh.nextObj, nr, name, parent⟩)
  | notifyIgnored {adap : I2cAdapter} : adap ∈ sh.adding →
      CoreStep P sh (.notifyAdd adap) { sh with adding := sh.adding.erase adap }
  | notifyAdd {adap : I2cAdapter} : adap ∈ sh.adding → sh.notifier = true →
      sh.astralClient = none →
      CoreStep P sh (.notifyAdd adap)
        { sh with
          adding := sh.adding.erase adap
          astralAttempts := 0
          astralStageReported := false
          rearms := sh.rearms + 1 }
  | rearm : sh.rearms ≠ 0 →
      CoreStep P sh .rearm
        { sh with pending := sh.pending || !sh.canceling, rearms := sh.rearms - 1 }
  | removeAdapter {adap : I2cAdapter} :
      CoreStep P sh (.removeAdapter adap) (sh.delAdapter adap)
  | hwmonRead {client : I2cClient} {result : SmbusResult} : client ∈ sh.clients →
      .hwmon client ∈ sh.log →
      CoreStep P sh (.hwmonRead client result)
        { sh with log := .transfer client result :: sh.log }

theorem Shared.notifyAdd_cases {sh : Shared} {adap : I2cAdapter} (h : adap ∈ sh.adding) :
    CoreStep P sh (.notifyAdd adap) (sh.notifyAdd P adap) := by
  simp only [Shared.notifyAdd, Shared.astralBusNotifyAdd]
  split
  next hn =>
    -- another machine's adapter, then a chip already published, end the callback
    split
    · exact .notifyIgnored h
    split
    next hclient => exact .notifyAdd h hn (Option.isNone_iff_eq_none.mp hclient)
    · exact .notifyIgnored h
  next => exact .notifyIgnored h

/-! ### The system -/

/-- Where `astral_init` stands after a step of its pass. -/
def InitPc.afterPass (call : Pass) : InitPc :=
  if call.pc = .returned then .attached else .pass call

/-- Where the worker stands after a step of its pass. -/
def WorkerPc.afterPass (call : Pass) : WorkerPc :=
  if call.pc = .returned then .attached call.scan else .pass call

/-- The rules of `next`. -/
inductive Step (P : Setup) (s : St) : Action → St → Prop
  | core {a : Action} {sh' : Shared} : CoreStep P s.sh a sh' → Step P s a { s with sh := sh' }
  | refuse {env : Env} {ret : Errno} : s.init = .start ∨ s.init = .registerNotifier →
      Step P s (.init env) { s with init := .failed ret }
  | cardPresent {env : Env} : s.init = .start →
      Step P s (.init env) { s with init := .registerNotifier }
  | registerNotifier {env : Env} : s.init = .registerNotifier →
      Step P s (.init env)
        { s with sh := { s.sh with notifier := true }, init := .pass .start }
  | initPass {env : Env} {call call' : Pass} {sh' : Shared} : s.init = .pass call →
      PassStep P s.sh env call sh' call' →
      Step P s (.init env) { s with sh := sh', init := .afterPass call' }
  | initAttached {env : Env} : s.init = .attached → s.sh.astralClient.isSome = true →
      Step P s (.init env) { s with init := .done }
  | initNotAttached {env : Env} : s.init = .attached → s.sh.astralClient = none →
      Step P s (.init env) { s with init := .schedule }
  | initSchedule {env : Env} : s.init = .schedule →
      Step P s (.init env)
        { s with
          sh := { s.sh with pending := s.sh.pending || !s.sh.canceling }
          init := .done }
  | workerStart : s.sh.pending = true → s.worker = .idle →
      Step P s .workerStart
        { s with sh := { s.sh with pending := false }, worker := .pass .start }
  | workerPass {env : Env} {call call' : Pass} {sh' : Shared} : s.worker = .pass call →
      PassStep P s.sh env call sh' call' →
      Step P s (.worker env) { s with sh := sh', worker := .afterPass call' }
  | workerAttached {env : Env} {scan : AstralScan} : s.worker = .attached scan →
      s.sh.astralClient.isSome = true → Step P s (.worker env) { s with worker := .idle }
  | workerNotAttached {env : Env} {scan : AstralScan} : s.worker = .attached scan →
      s.sh.astralClient = none → Step P s (.worker env) { s with worker := .count scan }
  | workerCount {env : Env} {scan : AstralScan} : s.worker = .count scan →
      Step P s (.worker env)
        { s with
          sh := { s.sh with astralStageReported := true }
          worker := .retry scan s.sh.astralAttempts !s.sh.astralStageReported }
  | workerRetry {env : Env} {scan : AstralScan} {attempts : ℕ} {report : Bool}
      {reports : List Report} : s.worker = .retry scan attempts report →
      attempts < astralRetryLimit →
      Step P s (.worker env)
        { s with
          sh := { s.sh with pending := s.sh.pending || !s.sh.canceling, reports := reports }
          worker := .idle }
  | workerGiveUp {env : Env} {scan : AstralScan} {attempts : ℕ} {report : Bool}
      {reports : List Report} : s.worker = .retry scan attempts report →
      astralRetryLimit ≤ attempts →
      Step P s (.worker env)
        { s with sh := { s.sh with reports := reports }, worker := .idle }
  | exitStart : s.init = .done → s.exit = .idle →
      Step P s .exitStart { s with exit := .unregisterNotifier }
  | unregisterNotifier : s.exit = .unregisterNotifier → s.sh.rearms = 0 →
      Step P s .exit { s with sh := { s.sh with notifier := false }, exit := .cancel }
  | cancel : s.exit = .cancel →
      Step P s .exit
        { s with sh := { s.sh with pending := false, canceling := true }, exit := .wait }
  | wait : s.exit = .wait → s.worker = .idle →
      Step P s .exit { s with sh := { s.sh with canceling := false }, exit := .release }
  | release {client : I2cClient} : s.exit = .release → s.sh.astralClient = some client →
      Step P s .exit { s with exit := .unregister client }
  | nothingToRelease : s.exit = .release → s.sh.astralClient = none →
      Step P s .exit { s with exit := .done }
  | exitUnregister {client : I2cClient} : s.exit = .unregister client →
      Step P s .exit { s with sh := s.sh.i2cUnregisterDevice client, exit := .clear }
  | clear : s.exit = .clear →
      Step P s .exit { s with sh := { s.sh with astralClient := none }, exit := .done }

theorem Step.of_init {s s' : St} {env : Env} (h : next P s (.init env) = some s') :
    Step P s (.init env) s' := by
  obtain ⟨⟨sh', init'⟩, hstep, rfl⟩ := Option.map_eq_some_iff.mp h
  cases hinit : s.init with
  | start =>
    simp only [hinit, InitPc.step] at hstep
    -- a bad address, no card in the machine, or past both checks
    split_ifs at hstep
    · obtain ⟨rfl, rfl⟩ := by simpa using hstep
      exact .refuse (Or.inl hinit)
    · obtain ⟨rfl, rfl⟩ := by simpa using hstep
      exact .refuse (Or.inl hinit)
    · obtain ⟨rfl, rfl⟩ := by simpa using hstep
      exact .cardPresent hinit
  | registerNotifier =>
    simp only [hinit, InitPc.step] at hstep
    split at hstep
    · obtain ⟨rfl, rfl⟩ := by simpa using hstep
      exact .refuse (Or.inr hinit)
    · obtain ⟨rfl, rfl⟩ := by simpa using hstep
      exact .registerNotifier hinit
  | pass call =>
    obtain ⟨rfl, rfl⟩ := by simpa [hinit, InitPc.step] using hstep
    exact .initPass hinit (call.step_cases s.sh env)
  | attached =>
    obtain ⟨rfl, rfl⟩ := by simpa [hinit, InitPc.step] using hstep
    cases hclient : s.sh.astralClient with
    | some client => exact .initAttached hinit (by rw [hclient]; rfl)
    | none => exact .initNotAttached hinit hclient
  | schedule =>
    obtain ⟨rfl, rfl⟩ := by simpa [hinit, InitPc.step] using hstep
    rw [Shared.scheduleWork_eq]
    exact .initSchedule hinit
  | done => simp [hinit, InitPc.step] at hstep
  | failed ret => simp [hinit, InitPc.step] at hstep

theorem Step.of_worker {s s' : St} {env : Env} (h : next P s (.worker env) = some s') :
    Step P s (.worker env) s' := by
  obtain ⟨⟨sh', worker'⟩, hstep, rfl⟩ := Option.map_eq_some_iff.mp h
  cases hworker : s.worker with
  | idle => simp [hworker, WorkerPc.step] at hstep
  | pass call =>
    obtain ⟨rfl, rfl⟩ := by simpa [hworker, WorkerPc.step] using hstep
    exact .workerPass hworker (call.step_cases s.sh env)
  | attached scan =>
    obtain ⟨rfl, rfl⟩ := by simpa [hworker, WorkerPc.step] using hstep
    cases hclient : s.sh.astralClient with
    | some client => exact .workerAttached hworker (by rw [hclient]; rfl)
    | none => exact .workerNotAttached hworker hclient
  | count scan =>
    obtain ⟨rfl, rfl⟩ := by simpa [hworker, WorkerPc.step] using hstep
    exact .workerCount hworker
  | retry scan attempts report =>
    simp only [hworker, WorkerPc.step] at hstep
    split_ifs at hstep with hlimit hline
    -- the line it may print is all that tells the first two apart
    · obtain ⟨rfl, rfl⟩ := by simpa using hstep
      rw [Shared.scheduleWork_eq]
      exact .workerRetry hworker hlimit
    · obtain ⟨rfl, rfl⟩ := by simpa using hstep
      rw [Shared.scheduleWork_eq]
      exact Step.workerRetry hworker hlimit
    · obtain ⟨rfl, rfl⟩ := by simpa using hstep
      exact .workerGiveUp hworker (Nat.le_of_not_lt hlimit)

theorem Step.of_exit {s s' : St} (h : next P s .exit = some s') : Step P s .exit s' := by
  obtain ⟨⟨sh', exit'⟩, hstep, rfl⟩ := Option.map_eq_some_iff.mp h
  -- the two positions at which it waits are enabled only when it need not
  cases hexit : s.exit with
  | idle => simp [hexit, ExitPc.step] at hstep
  | unregisterNotifier =>
    simp only [hexit, ExitPc.step] at hstep
    split_ifs at hstep with hrearms
    obtain ⟨rfl, rfl⟩ := by simpa using hstep
    exact .unregisterNotifier hexit hrearms
  | cancel =>
    obtain ⟨rfl, rfl⟩ := by simpa [hexit, ExitPc.step] using hstep
    exact .cancel hexit
  | wait =>
    simp only [hexit, ExitPc.step] at hstep
    split_ifs at hstep with hidle
    obtain ⟨rfl, rfl⟩ := by simpa using hstep
    exact .wait hexit hidle
  | release =>
    simp only [hexit, ExitPc.step] at hstep
    split at hstep
    next client hclient =>
      obtain ⟨rfl, rfl⟩ := by simpa using hstep
      exact .release hexit hclient
    next hclient =>
      obtain ⟨rfl, rfl⟩ := by simpa using hstep
      exact .nothingToRelease hexit hclient
  | unregister client =>
    obtain ⟨rfl, rfl⟩ := by simpa [hexit, ExitPc.step] using hstep
    exact .exitUnregister hexit
  | clear =>
    obtain ⟨rfl, rfl⟩ := by simpa [hexit, ExitPc.step] using hstep
    exact .clear hexit
  | done => simp [hexit, ExitPc.step] at hstep

/-- The start of the worker takes the work off the queue. -/
theorem next_workerStart {s s' : St} (h : next P s .workerStart = some s') :
    s' = { s with sh := { s.sh with pending := false }, worker := .pass .start } := by
  simp only [next] at h
  split_ifs at h
  exact (Option.some.inj h).symm

/-- **Every step of the system is one of the rules.** -/
theorem Step.of_next {s s' : St} {a : Action} (h : next P s a = some s') : Step P s a s' := by
  -- one guard to each action; the threads have their own inversions above
  cases a with
  | addAdapter nr name parent =>
    simp only [next] at h
    split_ifs at h
    obtain rfl := Option.some.inj h
    exact .core .addAdapter
  | notifyAdd adap =>
    simp only [next] at h
    split_ifs at h with hadding
    obtain rfl := Option.some.inj h
    exact .core (Shared.notifyAdd_cases hadding)
  | rearm =>
    simp only [next] at h
    split_ifs at h with hrearms
    obtain rfl := Option.some.inj h
    rw [Shared.scheduleWork_eq]
    exact .core (.rearm hrearms)
  | removeAdapter adap =>
    simp only [next] at h
    split_ifs at h
    obtain rfl := Option.some.inj h
    exact .core .removeAdapter
  | hwmonRead client result =>
    simp only [next] at h
    split_ifs at h with hlive
    obtain rfl := Option.some.inj h
    exact .core (.hwmonRead hlive.1 hlive.2)
  | init env => exact .of_init h
  | workerStart =>
    simp only [next] at h
    split_ifs at h with hstart
    obtain rfl := Option.some.inj h
    exact .workerStart hstart.1 hstart.2
  | worker env => exact .of_worker h
  | exitStart =>
    simp only [next] at h
    split_ifs at h with hstart
    obtain rfl := Option.some.inj h
    exact .exitStart hstart.1 hstart.2
  | exit => exact .of_exit h

end Astral
