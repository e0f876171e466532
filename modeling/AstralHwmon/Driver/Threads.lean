import AstralHwmon.Driver.Lifecycle
import AstralHwmon.Lib.Monitor

/-!
# The threads of the module, lock by lock

The same code as in `lifecycle`, one level further down: a step is one statement, and
taking and dropping `astral_lock` are steps of their own. Every function of the driver
that takes the lock, or calls one that does, has its positions, and a thread is the
stack of the calls it is in.

The driver core calls `astral_bus_notify` on the thread that adds or deletes a device,
while it does so: `busNotify` pushes the callback on the stack of whoever is adding or
deleting, for as long as the notifier is on the chain. That can be the attach itself,
whose client is new or is given up, `astral_exit`, and any number of other threads that
register and delete adapters or do things to devices of others. The threads inside the
chain hold its semaphore for reading, and taking the notifier off waits for them.

The data are those of `Shared`; `adding` and `rearms`, which stand there for callbacks
in progress, are not used. What a thread prints is left out, except for the reports of
the worker.
-/

open Transition CText Monitor

namespace Astral.Threads

/-- The threads: those of the module, and all others of the machine. -/
inductive Tid
  | init
  | worker
  | exit
  | other (n : ℕ)
  deriving DecidableEq

/-- Where the kernel has the module in its life. -/
inductive ModuleState
  | unformed
  | coming
  | live
  | failed
  | going
  deriving DecidableEq

/-- What the threads share. -/
structure Kernel where
  sh : Shared
  modState : ModuleState
  /-- The threads inside the notifier chain. -/
  callers : ℕ

/-- The actions of a bus notification that `astral_bus_notify` tells apart. -/
inductive NotifyAction
  | addDevice
  | delDevice
  | other
  deriving DecidableEq

/-- `astral_bus_notify`. -/
inductive BusNotifyPc
  | entry (action : NotifyAction) (dev : BusDev)
  | lockAdd
  | add
  | unlockAdd (rearm : Bool)
  | rearm (rearm : Bool)
  | lockDel (dev : BusDev)
  | del (dev : BusDev)
  | unlockDel
  | ret

/-- `astral_attached`. -/
inductive AttachedPc
  | lock
  | read
  | unlock (attached : Bool)
  | ret (attached : Bool)

/-- `astral_attach`. -/
inductive AttachPc
  | create (adap : I2cAdapter)
  | lock (client : I2cClient)
  | publish (client : I2cClient)
  | unlock (client : I2cClient)
  | alloc (client : I2cClient)
  | refresh (client : I2cClient)
  | register (client : I2cClient)
  /-- From here on, `err_unregister`. -/
  | lockErr (client : I2cClient)
  | unpublish (client : I2cClient)
  | unlockErr (client : I2cClient)
  | unregister (client : I2cClient)
  | ret (client : Option I2cClient)

/-- `astral_probe_once`. -/
inductive ProbeOncePc
  | lock
  | check
  | unlockBusy
  | unlockClaim
  | walk
  | get (adapterId : ℤ)
  | gate (adap : I2cAdapter)
  | lockSettle (adap : Option I2cAdapter) (client : Option I2cClient)
  | settle (adap : Option I2cAdapter) (client : Option I2cClient)
  | unlockSettle (adap : Option I2cAdapter)
  | put (adap : Option I2cAdapter)
  | ret

/-- `astral_probe_worker`. -/
inductive ProbeWorkerPc
  | probe
  | attached (scan : AstralScan)
  | test (scan : AstralScan) (attached : Bool)
  | lock (scan : AstralScan)
  | count (scan : AstralScan)
  | unlock (scan : AstralScan) (attempts : ℕ) (report : Bool)
  | retry (scan : AstralScan) (attempts : ℕ) (report : Bool)
  | ret

/-- `astral_init`. -/
inductive InitPc
  | start
  | register
  | probe
  | attached
  | test (attached : Bool)
  | ret (ret : Except Errno Unit)

/-- `astral_exit`. -/
inductive ExitPc
  | unregisterNotifier
  | cancel
  | wait
  | lock
  | check
  | unregister (client : I2cClient)
  | clear
  | unlock
  | ret

/-- A call in progress: of a function of the driver, or of the i2c core on another
thread. -/
inductive Frame
  | init (pc : InitPc)
  | worker (pc : ProbeWorkerPc)
  | exit (pc : ExitPc)
  | probeOnce (scan : AstralScan) (pc : ProbeOncePc)
  | attach (pc : AttachPc)
  | attached (pc : AttachedPc)
  | notify (pc : BusNotifyPc)
  /-- `i2c_add_adapter`, past the registration of the device. -/
  | addAdapter (adap : I2cAdapter)
  /-- `i2c_del_adapter`. -/
  | delAdapter (adap : I2cAdapter)
  | coreRet

/-- What a call returns. -/
inductive Value
  | unit
  | bool (b : Bool)
  | client (client : Option I2cClient)
  /-- The `scan` that `astral_probe_once` filled in. -/
  | scan (scan : AstralScan)

/-- The shared data, the owner of `astral_lock`, and the stacks. -/
abbrev Sys := State Kernel Tid Frame

/-- A statement of one of them. -/
abbrev Statement := Instr Kernel Frame Value

variable (P : Setup)

/-- The driver core tells the notifier of a device, on the thread that is in `f`. -/
def busNotify (k : Kernel) (action : NotifyAction) (dev : BusDev) (f : Frame) : Statement :=
  if k.sh.notifier then
    .call { k with callers := k.callers + 1 } (.notify (.entry action dev)) f
  else .step k f

/-- The statements of `astral_bus_notify`. -/
def astralBusNotify (k : Kernel) : BusNotifyPc → Statement
  -- the filters come before the lock
  | .entry .addDevice (.client _) => .step k (.notify .ret)
  | .entry .addDevice (.adapter adap) =>
    .step k (.notify (if (astralCardMatches adap P.allowUnknown).isNone then .ret else .lockAdd))
  | .entry .delDevice dev => .step k (.notify (.lockDel dev))
  | .entry .other _ => .step k (.notify .ret)
  | .lockAdd => .acquire (.notify .add)
  | .add =>
    if k.sh.astralClient.isNone then
      .step { k with sh := { k.sh with astralAttempts := 0, astralStageReported := false } }
        (.notify (.unlockAdd true))
    else .step k (.notify (.unlockAdd false))
  | .unlockAdd rearm => .release (.notify (.rearm rearm))
  | .rearm rearm =>
    .step (if rearm then { k with sh := k.sh.scheduleWork } else k) (.notify .ret)
  | .lockDel dev => .acquire (.notify (.del dev))
  | .del (.client client) =>
    .step { k with sh := k.sh.astralBusNotifyDel client } (.notify .unlockDel)
  | .del (.adapter _) => .step k (.notify .unlockDel)
  | .unlockDel => .release (.notify .ret)
  | .ret => .ret { k with callers := k.callers - 1 } .unit

/-- The statements of `astral_attached`. -/
def astralAttached (k : Kernel) : AttachedPc → Statement
  | .lock => .acquire (.attached .read)
  | .read => .step k (.attached (.unlock k.sh.astralClient.isSome))
  | .unlock attached => .release (.attached (.ret attached))
  | .ret attached => .ret k (.bool attached)

/-- The statements of `astral_attach`. -/
def astralAttach (k : Kernel) (env : Env) : AttachPc → Statement
  | .create adap =>
    match k.sh.i2cNewClientDevice adap P.addr env with
    | some (sh, client) =>
      busNotify { k with sh := sh } .addDevice (.client client) (.attach (.lock client))
    | none => .step k (.attach (.ret none))
  | .lock client => .acquire (.attach (.publish client))
  | .publish client =>
    .step { k with sh := { k.sh with astralClient := some client } } (.attach (.unlock client))
  | .unlock client => .release (.attach (.alloc client))
  | .alloc client =>
    .step k (.attach (if env.fault.isSome then .lockErr client else .refresh client))
  | .refresh client =>
    let r := astralRefresh P.ttl .zeroed env.io
    let sh := match r.transfer with
      | some result => k.sh.note (.transfer client result)
      | none => k.sh
    .step { k with sh := sh } (.attach
      (match r.ret with
        | .ok () => .register client
        | .error _ => .lockErr client))
  | .register client =>
    if env.fault.isSome then .step k (.attach (.lockErr client))
    else .step { k with sh := k.sh.note (.hwmon client) } (.attach (.ret (some client)))
  | .lockErr client => .acquire (.attach (.unpublish client))
  | .unpublish client =>
    -- the notifier may already have cleared it
    .step
      { k with sh :=
        if k.sh.astralClient = some client then { k.sh with astralClient := none } else k.sh }
      (.attach (.unlockErr client))
  | .unlockErr client => .release (.attach (.unregister client))
  | .unregister client =>
    busNotify
      { k with sh := { k.sh.note (.unregistered client) with
        clients := k.sh.clients.erase client } }
      .delDevice (.client client) (.attach (.ret none))
  | .ret client => .ret k (.client client)

/-- The statements of `astral_probe_once`. -/
def astralProbeOnce (k : Kernel) (env : Env) (scan : AstralScan) : ProbeOncePc → Statement
  | .lock => .acquire (.probeOnce scan .check)
  | .check =>
    if k.sh.astralClient.isSome || k.sh.astralClaiming then .step k (.probeOnce scan .unlockBusy)
    else
      .step { k with sh := { k.sh with astralClaiming := true } } (.probeOnce scan .unlockClaim)
  | .unlockBusy => .release (.probeOnce scan .ret)
  | .unlockClaim => .release (.probeOnce scan .walk)
  | .walk => .step k (.probeOnce (k.sh.walk P).scan (.get (k.sh.walk P).adapterId))
  | .get adapterId =>
    match if 0 ≤ adapterId then k.sh.i2cGetAdapter adapterId env else none with
    | some adap => .step k (.probeOnce scan (.gate adap))
    | none => .step k (.probeOnce scan (.lockSettle none none))
  | .gate adap =>
    if (astralCardMatches adap P.allowUnknown).isSome && astralAdapterSelected P adap then
      .call k (.attach (.create adap)) (.probeOnce scan (.lockSettle (some adap) none))
    else .step k (.probeOnce scan (.lockSettle (some adap) none))
  | .lockSettle adap client => .acquire (.probeOnce scan (.settle adap client))
  | .settle adap client =>
    .step
      { k with sh := { k.sh with
        astralClaiming := false
        astralAttempts := if client.isNone then k.sh.astralAttempts + 1 else k.sh.astralAttempts
        log := if client.isNone then .passFailed :: k.sh.log else k.sh.log } }
      (.probeOnce scan (.unlockSettle adap))
  | .unlockSettle adap => .release (.probeOnce scan (.put adap))
  | .put _ => .step k (.probeOnce scan .ret)
  | .ret => .ret k (.scan scan)

/-- The statements of `astral_probe_worker`. -/
def astralProbeWorker (k : Kernel) : ProbeWorkerPc → Statement
  | .probe => .call k (.probeOnce ⟨0, 0⟩ .lock) (.worker (.attached ⟨0, 0⟩))
  | .attached scan => .call k (.attached .lock) (.worker (.test scan false))
  | .test scan attached => .step k (.worker (if attached then .ret else .lock scan))
  | .lock scan => .acquire (.worker (.count scan))
  | .count scan =>
    .step { k with sh := { k.sh with astralStageReported := true } }
      (.worker (.unlock scan k.sh.astralAttempts !k.sh.astralStageReported))
  | .unlock scan attempts report => .release (.worker (.retry scan attempts report))
  | .retry scan attempts report =>
    if attempts < astralRetryLimit then
      let sh :=
        if report = true ∧ scan.stage ≠ .noAnswer then
          { k.sh with reports := .waiting scan.stage :: k.sh.reports }
        else k.sh
      .step { k with sh := sh.scheduleWork } (.worker .ret)
    else
      .step { k with sh := { k.sh with reports := .gaveUp scan.stage :: k.sh.reports } }
        (.worker .ret)
  | .ret => .ret k .unit

/-- The statements of `astral_init`. What it returns is what becomes of the module. -/
def astralInit (k : Kernel) (env : Env) : InitPc → Statement
  | .start =>
    if P.addr < 0x08 ∨ 0x77 < P.addr then .step k (.init (.ret (.error EINVAL)))
    else if (astralCardPresent P.pci P.allowUnknown).isNone then
      .step k (.init (.ret (.error ENODEV)))
    else .step k (.init .register)
  | .register =>
    match env.fault with
    | some e => .step k (.init (.ret (.error e)))
    | none => .step { k with sh := { k.sh with notifier := true } } (.init .probe)
  | .probe => .call k (.probeOnce ⟨0, 0⟩ .lock) (.init .attached)
  | .attached => .call k (.attached .lock) (.init (.test false))
  | .test attached =>
    .step (if attached then k else { k with sh := k.sh.scheduleWork }) (.init (.ret (.ok ())))
  | .ret (.ok ()) => .ret { k with modState := .live } .unit
  | .ret (.error _) => .ret { k with modState := .failed } .unit

/-- The statements of `astral_exit`. The notifier goes off the chain when no thread is
inside, and `cancel_delayed_work_sync` waits for a run of the worker. -/
def astralExit (s : Sys) : ExitPc → Statement
  | .unregisterNotifier =>
    .await (s.data.callers == 0) { s.data with sh := { s.data.sh with notifier := false } }
      (.exit .cancel)
  | .cancel =>
    .step { s.data with sh := { s.data.sh with pending := false, canceling := true } }
      (.exit .wait)
  | .wait =>
    .await (s.stack .worker).isEmpty
      { s.data with sh := { s.data.sh with canceling := false } } (.exit .lock)
  | .lock => .acquire (.exit .check)
  | .check =>
    match s.data.sh.astralClient with
    | some client => .step s.data (.exit (.unregister client))
    | none => .step s.data (.exit .unlock)
  | .unregister client =>
    -- with the lock held
    busNotify
      { s.data with sh := { s.data.sh.note (.unregistered client) with
        clients := s.data.sh.clients.erase client } }
      .delDevice (.client client) (.exit .clear)
  | .clear =>
    .step { s.data with sh := { s.data.sh with astralClient := none } } (.exit .unlock)
  | .unlock => .release (.exit .ret)
  | .ret => .ret s.data .unit

/-- The i2c core deletes the clients of an adapter one by one, and then the adapter. -/
def i2cDelAdapter (k : Kernel) (adap : I2cAdapter) : Statement :=
  match k.sh.clients.find? fun client => client.adapter = adap with
  | some client =>
    busNotify
      { k with sh := { k.sh.note (.deleted client) with clients := k.sh.clients.erase client } }
      .delDevice (.client client) (.delAdapter adap)
  | none =>
    busNotify { k with sh := { k.sh with adapters := k.sh.adapters.erase adap } }
      .delDevice (.adapter adap) .coreRet

/-- What a frame does next. -/
def instr (s : Sys) (env : Env) : Frame → Statement
  | .init pc => astralInit P s.data env pc
  | .worker pc => astralProbeWorker s.data pc
  | .exit pc => astralExit s pc
  | .probeOnce scan pc => astralProbeOnce P s.data env scan pc
  | .attach pc => astralAttach P s.data env pc
  | .attached pc => astralAttached s.data pc
  | .notify pc => astralBusNotify P s.data pc
  | .addAdapter adap => busNotify s.data .addDevice (.adapter adap) .coreRet
  | .delAdapter adap => i2cDelAdapter s.data adap
  | .coreRet => .ret s.data .unit

/-- A caller takes the value it was waiting for. -/
def resume : Frame → Value → Frame
  | .worker (.attached _), .scan scan => .worker (.attached scan)
  | .worker (.test scan _), .bool attached => .worker (.test scan attached)
  | .init (.test _), .bool attached => .init (.test attached)
  | .probeOnce scan (.lockSettle adap _), .client client =>
    .probeOnce scan (.lockSettle adap client)
  | f, _ => f

/-- What can start: the load of the module, its work, its unload, and what other threads
do on the bus. -/
inductive Start
  | init
  | worker
  | exit
  /-- Thread `n` registers an adapter under an unused id. -/
  | addAdapter (n nr : ℕ) (name : CStr) (parent : Option ParentDevice)
  /-- Thread `n` deletes an adapter. -/
  | delAdapter (n : ℕ) (adap : I2cAdapter)
  /-- Thread `n` does something to a client that is not the driver's. -/
  | foreign (n : ℕ) (action : NotifyAction) (client : I2cClient)

/-- Where it starts. -/
def start (s : Sys) : Start → Option (Kernel × Tid × Frame)
  | .init =>
    if s.data.modState = .unformed then
      some ({ s.data with modState := .coming }, .init, .init .start)
    else none
  | .worker =>
    if s.data.sh.pending then
      some ({ s.data with sh := { s.data.sh with pending := false } }, .worker, .worker .probe)
    else none
  | .exit =>
    -- the module is live once `astral_init` has returned
    if s.data.modState = .live ∧ (s.stack .init).isEmpty = true then
      some ({ s.data with modState := .going }, .exit, .exit .unregisterNotifier)
    else none
  | .addAdapter n nr name parent =>
    if s.data.sh.adapters.any fun adap => adap.nr == nr then none
    else
      let adap : I2cAdapter := ⟨s.data.sh.nextObj, nr, name, parent⟩
      some ({ s.data with sh := { s.data.sh with
        adapters := s.data.sh.adapters ++ [adap]
        nextObj := s.data.sh.nextObj + 1 } }, .other n, .addAdapter adap)
  | .delAdapter n adap =>
    if adap ∈ s.data.sh.adapters then some (s.data, .other n, .delAdapter adap) else none
  | .foreign n action client =>
    if s.data.sh.notifier = true ∧ client ∉ s.data.sh.clients ∧
        s.data.sh.astralClient ≠ some client then
      some ({ s.data with callers := s.data.callers + 1 }, .other n,
        .notify (.entry action (.client client)))
    else none

/-- The code of the machine, for a module loaded with the setup `P`. -/
def code : Code Kernel Tid Frame Value Env Start where
  instr := instr P
  resume := resume
  start := start

/-- The machine before the module is loaded. -/
def boot : Sys where
  data := ⟨St.boot.sh, .unformed, 0⟩
  lock := none
  stack _ := []

/-- All threads, interleaved in every order. -/
def threads : System Sys (Act Tid Env Start) := (code P).system (· = boot)

end Astral.Threads
