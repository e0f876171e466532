import AstralHwmon.Driver.Cache
import AstralHwmon.Driver.Detect
import AstralHwmon.Lib.Transition

/-!
# Probe, notifier and exit as interleaving threads

The life of the module (`driver/astral_hwmon.c` from `astral_attach` to
`astral_exit`) as a transition system. Three threads of the driver run —
`astral_init`, the probe worker and `astral_exit` — beside the bus notifier,
the i2c core, which registers and deletes adapters at any moment, and the
readers of the hwmon device.

A step is one `astral_lock` critical section, or one call into the i2c core, the
hwmon core or the work queue; what the threads do between two such points is
private to them. A thread's position is a constructor of its program counter,
named for the step it takes next, which carries the locals still in use. What a
step cannot decide itself — whether an allocation succeeds, what the bus
answers — is the `Env` its action carries.

Both callers of `astral_probe_once` run the same code, so a pass is one type:
`Pass.step` takes the claim, releases the adapter and returns, and `claimedStep`
is the part between the two critical sections that set and clear
`astral_claiming`.

Deleting an adapter deletes its clients, and the `DEL` notifications go out with
it, in one step. An adapter is visible to a walk before its `ADD` notification is
sent, so the two are separate steps. The callback in turn decides under the lock
and arms the work after dropping it; `rearms` counts the callbacks in between.

`log` is what a history is stated in, newest event first, and `reports` are the
worker's lines in the kernel log. The other lines are left out, with the local
`attempt`, which only silences them.
-/

open Transition CText

namespace Astral

/-- `ASTRAL_RETRY_LIMIT`. -/
def astralRetryLimit : ℕ := 15

/-- What is fixed when the module is loaded. -/
structure Setup where
  /-- The module parameters. -/
  bus : ℤ
  addr : ℤ
  allowUnknown : Bool
  /-- The PCI devices of the machine. -/
  pci : List PciDev
  /-- `ASTRAL_CACHE_TTL`. -/
  ttl : Jiffies

/-- An i2c client the driver created: the object, the adapter it is on, and the
address it claims there. -/
structure I2cClient where
  obj : ℕ
  adapter : I2cAdapter
  addr : ℤ
  deriving DecidableEq

/-- A device a walk of the i2c bus meets. -/
inductive BusDev
  | adapter (adap : I2cAdapter)
  | client (client : I2cClient)

/-- What happened on the driver's behalf. -/
inductive Event
  | created (client : I2cClient)
  | transfer (client : I2cClient) (result : SmbusResult)
  /-- The hwmon device of a client was registered. -/
  | hwmon (client : I2cClient)
  /-- The core deleted the client with its adapter. -/
  | deleted (client : I2cClient)
  /-- The driver called `i2c_unregister_device` on the client. -/
  | unregistered (client : I2cClient)
  /-- A pass was settled without a client. -/
  | passFailed
  deriving DecidableEq

/-- Where a worker run that found no chip says the driver is stuck. -/
inductive Stage
  | noAdapters
  | noSensorAdapter (cardAdapters : ℕ)
  | noAnswer
  deriving DecidableEq

/-- A line of the worker in the kernel log: still waiting, or out of patience. -/
inductive Report
  | waiting (stage : Stage)
  | gaveUp (stage : Stage)
  deriving DecidableEq

/-- What the threads share: the i2c core's lists, the notifier chain and the work
item, and the driver's statics. -/
structure Shared where
  /-- The registered adapters, oldest first. -/
  adapters : List I2cAdapter
  /-- Registered adapters whose `ADD` notification is still to be sent. -/
  adding : List I2cAdapter
  /-- The driver's clients that are registered. -/
  clients : List I2cClient
  /-- The next adapter or client object. -/
  nextObj : ℕ
  /-- `astral_nb` is on the chain. -/
  notifier : Bool
  rearms : ℕ
  pending : Bool
  /-- `cancel_delayed_work_sync` is waiting: the item cannot be queued. -/
  canceling : Bool
  astralClient : Option I2cClient
  astralClaiming : Bool
  astralAttempts : ℕ
  astralStageReported : Bool
  log : List Event
  /-- The worker's lines in the kernel log, newest first. -/
  reports : List Report

/-- What the kernel answers to the call a step makes. -/
structure Env where
  /-- The error the call ends with, `none` when it succeeds. -/
  fault : Option Errno
  /-- What the probe's refresh meets. -/
  io : CallIo

variable (P : Setup)

/-! ### The walk of the bus -/

/-- `struct astral_scan`. -/
structure AstralScan where
  cardAdapters : ℕ
  candidates : ℕ
  deriving DecidableEq

/-- The stage a scan got to, as the worker tells them apart. -/
def AstralScan.stage (scan : AstralScan) : Stage :=
  if scan.cardAdapters = 0 then .noAdapters
  else if scan.candidates = 0 then .noSensorAdapter scan.cardAdapters
  else .noAnswer

/-- `struct astral_probe_ctx`. -/
structure AstralProbeCtx where
  scan : AstralScan
  /-- The chosen bus, or -1. -/
  adapterId : ℤ

/-- `astral_adapter_selected`. -/
def astralAdapterSelected (adap : I2cAdapter) : Bool :=
  if 0 ≤ P.bus then adap.nr == P.bus else astralIsSensorAdapter adap

/-- `astral_try_adapter`; `true` stops the walk. -/
def astralTryAdapter (dev : BusDev) (ctx : AstralProbeCtx) : AstralProbeCtx × Bool :=
  match dev with
  | .client _ => (ctx, false)
  | .adapter adap =>
    if (astralCardMatches adap P.allowUnknown).isNone then (ctx, false)
    else
      let scan := { ctx.scan with cardAdapters := ctx.scan.cardAdapters + 1 }
      if !astralAdapterSelected P adap then ({ ctx with scan := scan }, false)
      else
        ({ scan := { scan with candidates := scan.candidates + 1 }, adapterId := adap.nr }, true)

/-- `i2c_for_each_dev` over `astral_try_adapter`. -/
def i2cForEachDev : List BusDev → AstralProbeCtx → AstralProbeCtx
  | [], ctx => ctx
  | dev :: devs, ctx =>
    match astralTryAdapter P dev ctx with
    | (ctx, true) => ctx
    | (ctx, false) => i2cForEachDev devs ctx

namespace Shared

/-- The devices of the bus. -/
def devices (sh : Shared) : List BusDev :=
  sh.adapters.map .adapter ++ sh.clients.map .client

/-- The walk of a pass. -/
def walk (sh : Shared) : AstralProbeCtx :=
  i2cForEachDev P sh.devices ⟨⟨0, 0⟩, -1⟩

/-- Append to the history. -/
def note (sh : Shared) (e : Event) : Shared := { sh with log := e :: sh.log }

/-! ### The i2c core and the notifier -/

/-- `i2c_get_adapter`, which also needs the owner module. -/
def i2cGetAdapter (sh : Shared) (id : ℤ) (env : Env) : Option I2cAdapter :=
  if env.fault.isSome then none else sh.adapters.find? fun adap => adap.nr == id

/-- `i2c_new_client_device`: fails on an adapter that is gone, and whenever the
kernel says so. -/
def i2cNewClientDevice (sh : Shared) (adap : I2cAdapter) (addr : ℤ) (env : Env) :
    Option (Shared × I2cClient) :=
  if env.fault.isSome || !decide (adap ∈ sh.adapters) then none
  else
    let client : I2cClient := ⟨sh.nextObj, adap, addr⟩
    some ({ sh with
      clients := client :: sh.clients
      nextObj := sh.nextObj + 1
      log := .created client :: sh.log }, client)

/-- `mod_delayed_work` and `schedule_delayed_work`. -/
def scheduleWork (sh : Shared) : Shared :=
  if sh.canceling then sh else { sh with pending := true }

/-- `astral_bus_notify` for `BUS_NOTIFY_ADD_DEVICE` of an adapter, up to the work
it may arm. -/
def astralBusNotifyAdd (sh : Shared) (adap : I2cAdapter) : Shared :=
  if (astralCardMatches adap P.allowUnknown).isNone then sh
  else if sh.astralClient.isNone then
    { sh with astralAttempts := 0, astralStageReported := false, rearms := sh.rearms + 1 }
  else sh

/-- `astral_bus_notify` for `BUS_NOTIFY_DEL_DEVICE` of a client. -/
def astralBusNotifyDel (sh : Shared) (client : I2cClient) : Shared :=
  if sh.astralClient = some client then { sh with astralClient := none } else sh

/-- A client leaves the bus. The notifier hears of it while it is registered. -/
def dropClient (sh : Shared) (client : I2cClient) : Shared :=
  let sh := { sh with clients := sh.clients.erase client }
  if sh.notifier then sh.astralBusNotifyDel client else sh

/-- `i2c_unregister_device`. -/
def i2cUnregisterDevice (sh : Shared) (client : I2cClient) : Shared :=
  (sh.note (.unregistered client)).dropClient client

/-- A new adapter, which the next walk meets. -/
def addAdapter (sh : Shared) (adap : I2cAdapter) : Shared :=
  { sh with
    adapters := sh.adapters ++ [adap]
    adding := adap :: sh.adding
    nextObj := sh.nextObj + 1 }

/-- The `ADD` notification of an adapter is sent. -/
def notifyAdd (sh : Shared) (adap : I2cAdapter) : Shared :=
  let sh := { sh with adding := sh.adding.erase adap }
  if sh.notifier then sh.astralBusNotifyAdd P adap else sh

/-- `i2c_del_adapter`: every client on the adapter goes with it. -/
def delAdapter (sh : Shared) (adap : I2cAdapter) : Shared :=
  (sh.clients.filter fun client => client.adapter = adap).foldl
    (fun sh client => (sh.note (.deleted client)).dropClient client)
    { sh with adapters := sh.adapters.erase adap }

end Shared

/-! ### A probe pass -/

/-- The positions of `astral_probe_once` between setting and clearing
`astral_claiming`, with those of the `astral_attach` it calls. -/
inductive ClaimedPc
  | walk
  | get (adapterId : ℤ)
  | gate (adap : I2cAdapter)
  | publish (client : I2cClient)
  | alloc (client : I2cClient)
  | refresh (client : I2cClient)
  | register (client : I2cClient)
  | unpublish (client : I2cClient)
  | unregister (client : I2cClient)
  | settle (client : Option I2cClient)
  deriving DecidableEq

/-- The positions of `astral_probe_once`. -/
inductive PassPc
  | claim
  | claimed (pc : ClaimedPc)
  | put
  | returned
  deriving DecidableEq

/-- A call of `astral_probe_once`, with the caller's `scan`. -/
structure Pass where
  pc : PassPc
  scan : AstralScan
  deriving DecidableEq

/-- The call as it starts. -/
def Pass.start : Pass := ⟨.claim, ⟨0, 0⟩⟩

/-- A step of `astral_probe_once` while it holds the claim, and of the
`astral_attach` in it. `none` is the release of the claim. -/
def claimedStep (sh : Shared) (env : Env) : ClaimedPc → Shared × Option ClaimedPc
  | .walk => (sh, some (.get (sh.walk P).adapterId))
  | .get adapterId =>
    match if 0 ≤ adapterId then sh.i2cGetAdapter adapterId env else none with
    | some adap => (sh, some (.gate adap))
    | none => (sh, some (.settle none))
  | .gate adap =>
    -- the id was chosen under the core lock, so the gate is checked again
    if (astralCardMatches adap P.allowUnknown).isSome && astralAdapterSelected P adap then
      match sh.i2cNewClientDevice adap P.addr env with
      | some (sh, client) => (sh, some (.publish client))
      | none => (sh, some (.settle none))
    else (sh, some (.settle none))
  | .publish client => ({ sh with astralClient := some client }, some (.alloc client))
  | .alloc client =>
    (sh, some (if env.fault.isSome then .unpublish client else .refresh client))
  | .refresh client =>
    let r := astralRefresh P.ttl .zeroed env.io
    let sh := match r.transfer with
      | some result => sh.note (.transfer client result)
      | none => sh
    match r.ret with
    | .ok () => (sh, some (.register client))
    | .error _ => (sh, some (.unpublish client))
  | .register client =>
    if env.fault.isSome then (sh, some (.unpublish client))
    else (sh.note (.hwmon client), some (.settle (some client)))
  | .unpublish client =>
    -- the notifier may already have cleared it
    (if sh.astralClient = some client then { sh with astralClient := none } else sh,
      some (.unregister client))
  | .unregister client => (sh.i2cUnregisterDevice client, some (.settle none))
  | .settle (some _) => ({ sh with astralClaiming := false }, none)
  | .settle none =>
    ({ sh with
        astralClaiming := false
        astralAttempts := sh.astralAttempts + 1
        log := .passFailed :: sh.log }, none)

/-- `astral_probe_once`. -/
def Pass.step (sh : Shared) (env : Env) (pass : Pass) : Shared × Pass :=
  match pass.pc with
  | .claim =>
    if sh.astralClient.isSome || sh.astralClaiming then (sh, { pass with pc := .returned })
    else ({ sh with astralClaiming := true }, { pass with pc := .claimed .walk })
  | .claimed pc =>
    let (sh', pc') := claimedStep P sh env pc
    (sh',
      { pc := match pc' with
          | some pc' => .claimed pc'
          | none => .put
        scan := if pc = .walk then (sh.walk P).scan else pass.scan })
  | .put => (sh, { pass with pc := .returned })
  | .returned => (sh, pass)

/-- The position inside the claim, if the call holds it. -/
def Pass.claimed (pass : Pass) : Option ClaimedPc :=
  match pass.pc with
  | .claimed pc => some pc
  | _ => none

/-! ### The threads -/

/-- `astral_init`. -/
inductive InitPc
  | start
  | registerNotifier
  | pass (pass : Pass)
  | attached
  | schedule
  | done
  | failed (ret : Errno)
  deriving DecidableEq

/-- `astral_probe_worker`; `idle` while no run of it is in progress. -/
inductive WorkerPc
  | idle
  | pass (pass : Pass)
  | attached (scan : AstralScan)
  | count (scan : AstralScan)
  | retry (scan : AstralScan) (attempts : ℕ) (report : Bool)
  deriving DecidableEq

/-- `astral_exit`; `idle` before it is called. -/
inductive ExitPc
  | idle
  | unregisterNotifier
  | cancel
  | wait
  | release
  | unregister (client : I2cClient)
  | clear
  | done
  deriving DecidableEq

/-- The whole system. -/
structure St where
  sh : Shared
  init : InitPc
  worker : WorkerPc
  exit : ExitPc

/-- The module before it is loaded, on a machine without adapters. -/
def St.boot : St where
  sh :=
    { adapters := [], adding := [], clients := [], nextObj := 0, notifier := false,
      rearms := 0, pending := false, canceling := false, astralClient := none,
      astralClaiming := false, astralAttempts := 0, astralStageReported := false, log := [],
      reports := [] }
  init := .start
  worker := .idle
  exit := .idle

/-- A step of `astral_init`; `none` when it has returned. -/
def InitPc.step (sh : Shared) (env : Env) : InitPc → Option (Shared × InitPc)
  | .start =>
    if P.addr < 0x08 ∨ 0x77 < P.addr then some (sh, .failed EINVAL)
    else if (astralCardPresent P.pci P.allowUnknown).isNone then some (sh, .failed ENODEV)
    else some (sh, .registerNotifier)
  | .registerNotifier =>
    match env.fault with
    | some e => some (sh, .failed e)
    | none => some ({ sh with notifier := true }, .pass .start)
  | .pass call =>
    let (sh, call) := call.step P sh env
    some (sh, if call.pc = .returned then .attached else .pass call)
  | .attached => some (sh, if sh.astralClient.isSome then .done else .schedule)
  | .schedule => some (sh.scheduleWork, .done)
  | .done => none
  | .failed _ => none

/-- A step of `astral_probe_worker`; `none` when it is not running. -/
def WorkerPc.step (sh : Shared) (env : Env) : WorkerPc → Option (Shared × WorkerPc)
  | .idle => none
  | .pass call =>
    let (sh, call) := call.step P sh env
    some (sh, if call.pc = .returned then .attached call.scan else .pass call)
  | .attached scan => some (sh, if sh.astralClient.isSome then .idle else .count scan)
  | .count scan =>
    some ({ sh with astralStageReported := true },
      .retry scan sh.astralAttempts !sh.astralStageReported)
  | .retry scan attempts report =>
    if attempts < astralRetryLimit then
      -- one line the first time each stage is entered, then silence
      let sh :=
        if report = true ∧ scan.stage ≠ .noAnswer then
          { sh with reports := .waiting scan.stage :: sh.reports }
        else sh
      some (sh.scheduleWork, .idle)
    else some ({ sh with reports := .gaveUp scan.stage :: sh.reports }, .idle)

/-- A step of `astral_exit`. The notifier chain waits for the callbacks in
progress, and `cancel_delayed_work_sync` for a run of the worker. -/
def ExitPc.step (sh : Shared) (worker : WorkerPc) : ExitPc → Option (Shared × ExitPc)
  | .idle => none
  | .unregisterNotifier =>
    if sh.rearms = 0 then some ({ sh with notifier := false }, .cancel) else none
  | .cancel => some ({ sh with pending := false, canceling := true }, .wait)
  | .wait => if worker = .idle then some ({ sh with canceling := false }, .release) else none
  | .release =>
    match sh.astralClient with
    | some client => some (sh, .unregister client)
    | none => some (sh, .done)
  | .unregister client => some (sh.i2cUnregisterDevice client, .clear)
  | .clear => some ({ sh with astralClient := none }, .done)
  | .done => none

/-- The steps of the system. -/
inductive Action
  /-- The machine registers an adapter under an unused id. -/
  | addAdapter (nr : ℕ) (name : CStr) (parent : Option ParentDevice)
  /-- Its `ADD` notification is sent. -/
  | notifyAdd (adap : I2cAdapter)
  /-- A callback of the notifier arms the work. -/
  | rearm
  /-- The machine deletes an adapter. -/
  | removeAdapter (adap : I2cAdapter)
  /-- A read of a hwmon device reaches the chip. -/
  | hwmonRead (client : I2cClient) (result : SmbusResult)
  | init (env : Env)
  /-- The work queue starts the pending work. -/
  | workerStart
  | worker (env : Env)
  /-- `rmmod`, once the module is loaded. -/
  | exitStart
  | exit

/-- The step an action takes, if it is enabled. -/
def next (s : St) : Action → Option St
  | .addAdapter nr name parent =>
    if s.sh.adapters.any fun adap => adap.nr == nr then none
    else some { s with sh := s.sh.addAdapter ⟨s.sh.nextObj, nr, name, parent⟩ }
  | .notifyAdd adap =>
    if adap ∈ s.sh.adding then some { s with sh := s.sh.notifyAdd P adap } else none
  | .rearm =>
    if s.sh.rearms = 0 then none
    else some { s with sh := { s.sh.scheduleWork with rearms := s.sh.rearms - 1 } }
  | .removeAdapter adap =>
    if adap ∈ s.sh.adapters ∧ adap ∉ s.sh.adding then some { s with sh := s.sh.delAdapter adap }
    else none
  | .hwmonRead client result =>
    if client ∈ s.sh.clients ∧ .hwmon client ∈ s.sh.log then
      some { s with sh := s.sh.note (.transfer client result) }
    else none
  | .init env => (s.init.step P s.sh env).map fun (sh, init) => { s with sh := sh, init := init }
  | .workerStart =>
    if s.sh.pending = true ∧ s.worker = .idle then
      some { s with sh := { s.sh with pending := false }, worker := .pass .start }
    else none
  | .worker env =>
    (s.worker.step P s.sh env).map fun (sh, worker) => { s with sh := sh, worker := worker }
  | .exitStart =>
    if s.init = .done ∧ s.exit = .idle then some { s with exit := .unregisterNotifier } else none
  | .exit => (s.exit.step s.sh s.worker).map fun (sh, exit) => { s with sh := sh, exit := exit }

/-- The module from its load to its unload, among everything that can happen
around it. -/
def lifecycle : System St Action := System.ofNext (fun s => s = St.boot) (next P)

/-! ### A machine with one card

The machine of the runs exhibited in what follows. -/

/-- An RTX 5090 OC, and a driver with its default parameters. -/
def oneCard : Setup where
  bus := -1
  addr := 0x2b
  allowUnknown := false
  pci := [⟨0x10de, 0x1043, 0x89e3⟩]
  ttl := 200

/-- The name of the sensor adapter of the card. -/
def sensorName : CStr := "NVIDIA i2c adapter 1 at 1:00.0".toList

/-- The sensor adapter of the card as object `obj`, under the id `nr`. -/
def sensorAdapter (obj nr : ℕ) : I2cAdapter :=
  ⟨obj, nr, sensorName, some (.pci ⟨0x10de, 0x1043, 0x89e3⟩)⟩

/-- A call that succeeds; a refresh finds the bus answering `result`. -/
def Env.ok (result : SmbusResult) : Env := ⟨none, ⟨0, result, 0⟩⟩

/-- A call that fails, and a bus that does not answer. -/
def Env.refused : Env := ⟨some EIO, ⟨0, .error EIO, 0⟩⟩

/-- The sensor adapter appears before the module is loaded. -/
def addSensor : List Action :=
  [.addAdapter 1 sensorName (some (.pci ⟨0x10de, 0x1043, 0x89e3⟩)), .notifyAdd (sensorAdapter 0 1)]

end Astral
