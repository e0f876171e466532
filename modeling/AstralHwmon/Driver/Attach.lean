import AstralHwmon.Driver.RetryCycle
import AstralHwmon.Driver.Stages
import Mathlib.Data.List.Pairwise

/-!
# `modprobe astral-hwmon && sensors`

`astral_init` makes its first pass before it returns so that the sensors exist by then whenever
the card is already up, and leaves a card that comes later to the worker. What either takes is
`Undisturbed`: the calls the driver makes succeed, the chip answers with plausible frames, nobody
unloads the module, and the sensor's adapter stays. Everything else may happen meanwhile, and a
pass of either thread may be the first to take the claim.

`OnTrack` is what holds of a pass at each of its positions while nothing goes wrong, and
`claimedStep_onTrack` is the step. A pass chooses its adapter by number in one step and takes a
reference by number in another; that the second finds the adapter the first has met is because
no two adapters registered at a time have one number (`distinctNrs_reachable`). `OnCourse` is
the same of the two threads together: as long as nothing goes wrong no pass fails, and where
none is in flight the sensors exist as soon as one has taken the claim (`St.Begun`).
-/

open Transition

namespace Astral

variable {P : Setup}

/-! ### Adapters and their numbers -/

/-- The adapter is one the sensor may be on. -/
def Setup.Sensor (P : Setup) (adap : I2cAdapter) : Prop :=
  P.accepts adap = true ∧ astralAdapterSelected P adap = true

instance (adap : I2cAdapter) : Decidable (P.Sensor adap) := inferInstanceAs (Decidable (_ ∧ _))

/-- No two adapters have one number. -/
def Shared.DistinctNrs (sh : Shared) : Prop := sh.adapters.Pairwise fun x y => x.nr ≠ y.nr

theorem Shared.DistinctNrs.eq {sh : Shared} (h : sh.DistinctNrs) {x y : I2cAdapter}
    (hx : x ∈ sh.adapters) (hy : y ∈ sh.adapters) (hnr : x.nr = y.nr) : x = y := by
  have hsymm : Std.Symm fun x y : I2cAdapter => x.nr ≠ y.nr := ⟨fun _ _ hne => hne.symm⟩
  by_contra hne
  exact List.Pairwise.forall h hx hy hne hnr

theorem ClaimedStep.adapters {sh sh' : Shared} {env : Env} {pc : ClaimedPc}
    {pc' : Option ClaimedPc} (h : ClaimedStep P sh env pc sh' pc') :
    sh'.adapters = sh.adapters := by
  cases h with
  | unregister => rw [Shared.i2cUnregisterDevice_eq]
  | _ => rfl

theorem PassStep.adapters {sh sh' : Shared} {env : Env} {call call' : Pass}
    (h : PassStep P sh env call sh' call') : sh'.adapters = sh.adapters := by
  cases h with
  | claimed hstep | release hstep => exact hstep.adapters
  | blocked | claim | put | returned => rfl

theorem next_distinctNrs {s s' : St} {a : Action} (h : s.sh.DistinctNrs)
    (hnext : next P s a = some s') : s'.sh.DistinctNrs := by
  cases Step.of_next hnext with
  | core hstep =>
    cases hstep with
    | @addAdapter nr name parent =>
      -- the core takes an unused id
      simp only [next] at hnext
      split_ifs at hnext with hused
      refine List.pairwise_append.mpr ⟨h, List.pairwise_singleton _ _, ?_⟩
      rintro x hx y hy
      obtain rfl := List.mem_singleton.mp hy
      simp only [List.any_eq_true, beq_iff_eq, not_exists, not_and] at hused
      exact hused x hx
    | @removeAdapter adap =>
      obtain ⟨clients, client, gone, heq, -⟩ := s.sh.delAdapter_spec adap
      rw [heq]
      exact h.sublist List.erase_sublist
    | notifyIgnored | notifyAdd | rearm | hwmonRead => exact h
  | initPass _ hstep | workerPass _ hstep =>
    rw [Shared.DistinctNrs, hstep.adapters]
    exact h
  | exitUnregister =>
    rw [Shared.i2cUnregisterDevice_eq]
    exact h
  | _ => exact h

theorem distinctNrs_reachable {s : St} (h : Reachable (lifecycle P) s) : s.sh.DistinctNrs :=
  Reachable.invariant (I := fun s => s.sh.DistinctNrs) (fun _ h₀ => h₀ ▸ List.Pairwise.nil)
    (fun _ _ _ hI hstep => next_distinctNrs hI hstep) h

/-- The walk chooses the number of a sensor's adapter, if there is one. -/
theorem i2cForEachDev_adapterId {adapters : List I2cAdapter} (h : SensorBus P adapters)
    (devs : List BusDev) (ctx : AstralProbeCtx) :
    ∃ adap ∈ adapters, P.Sensor adap ∧
      (i2cForEachDev P (adapters.map .adapter ++ devs) ctx).adapterId = adap.nr := by
  -- on the adapters the walk has before it; it stops at the first that is the sensor's
  induction adapters generalizing ctx with
  | nil => exact absurd h (by simp [SensorBus])
  | cons adap adapters ih =>
    simp only [List.map_cons, List.cons_append, i2cForEachDev, astralTryAdapter,
      Setup.not_accepts]
    by_cases hbus : P.Sensor adap
    · rw [if_neg (by simpa using hbus.1), if_neg (by simpa using hbus.2)]
      exact ⟨adap, List.mem_cons_self, hbus, rfl⟩
    · have hrest : SensorBus P adapters := by
        obtain ⟨adap', hmem, hbus'⟩ := h
        rcases List.mem_cons.mp hmem with rfl | hmem
        · exact absurd hbus' hbus
        · exact ⟨adap', hmem, hbus'⟩
      -- whatever this adapter adds to the counters, the walk goes on to one behind it
      have hlater (ctx : AstralProbeCtx) : ∃ adap' ∈ adap :: adapters, P.Sensor adap' ∧
          (i2cForEachDev P (adapters.map .adapter ++ devs) ctx).adapterId = adap'.nr := by
        obtain ⟨adap', hmem, hsensor, hid⟩ := ih hrest ctx
        exact ⟨adap', List.mem_cons_of_mem _ hmem, hsensor, hid⟩
      split_ifs with hmatch hsel
      · exact hlater _
      · exact hlater _
      · exact absurd ⟨by simpa using hmatch, by simpa using hsel⟩ hbus

/-! ### A pass on its way -/

/-- The calls a step makes succeed, and the chip answers. -/
def Env.Obliging (env : Env) : Prop := env.fault = none ∧ env.io.transfer.Good

instance (env : Env) : Decidable env.Obliging := inferInstanceAs (Decidable (_ ∧ _))

/-- Nothing goes wrong for the driver in this step. -/
def Undisturbed (P : Setup) (_ : St) : Action → Prop
  | .init env | .worker env => env.Obliging
  | .removeAdapter adap => ¬ P.Sensor adap
  | .exitStart => False
  | _ => True

instance (s : St) (a : Action) : Decidable (Undisturbed P s a) :=
  match a with
  | .init env | .worker env => inferInstanceAs (Decidable env.Obliging)
  | .removeAdapter _ => inferInstanceAs (Decidable (¬ _))
  | .exitStart => inferInstanceAs (Decidable False)
  | .addAdapter .. | .notifyAdd _ | .rearm | .hwmonRead .. | .workerStart | .exit =>
    inferInstanceAs (Decidable True)

namespace Shared

/-- The driver has no chip, and the card is up. -/
def Ready (P : Setup) (sh : Shared) : Prop :=
  sh.astralClient = none ∧ sh.clients = [] ∧ SensorBus P sh.adapters

/-- The client is the driver's one client, on an adapter of the sensor's. -/
def Only (P : Setup) (sh : Shared) (client : I2cClient) : Prop :=
  sh.clients = [client] ∧ P.Sensor client.adapter

/-- The sensors exist: the pointer is on a client, which is registered with its hwmon device. -/
def Served (P : Setup) (sh : Shared) : Prop :=
  ∃ client, sh.Only P client ∧ sh.astralClient = some client ∧ .hwmon client ∈ sh.log

end Shared

/-- Where an undisturbed pass is. -/
def OnTrack (P : Setup) (sh : Shared) : ClaimedPc → Prop
  | .walk => sh.Ready P
  | .get id => sh.clients = [] ∧ ∃ adap ∈ sh.adapters, P.Sensor adap ∧ id = adap.nr
  | .gate adap => sh.clients = [] ∧ adap ∈ sh.adapters ∧ P.Sensor adap
  | .publish client => sh.Only P client
  | .alloc client | .refresh client | .register client =>
    sh.Only P client ∧ sh.astralClient = some client
  | .settle (some client) =>
    sh.Only P client ∧ sh.astralClient = some client ∧ .hwmon client ∈ sh.log
  | .unpublish _ | .unregister _ | .settle none => False

theorem Shared.i2cGetAdapter_of_mem {sh : Shared} {env : Env} {adap : I2cAdapter}
    (hnr : sh.DistinctNrs) (hfault : env.fault = none) (hmem : adap ∈ sh.adapters) :
    sh.i2cGetAdapter adap.nr env = some adap := by
  rw [Shared.i2cGetAdapter, if_neg (by simp [hfault])]
  cases hfind : sh.adapters.find? fun x => (x.nr : ℤ) == adap.nr with
  | none =>
    have hno := List.find?_eq_none.mp hfind adap hmem
    exact absurd (beq_self_eq_true _) hno
  | some found =>
    have hsame := List.find?_some hfind
    rw [hnr.eq (List.mem_of_find?_eq_some hfind) hmem (by simpa using hsame)]

theorem Shared.i2cNewClientDevice_of_mem {sh : Shared} {env : Env} {adap : I2cAdapter}
    (hfault : env.fault = none) (hmem : adap ∈ sh.adapters) (addr : ℤ) :
    sh.i2cNewClientDevice adap addr env =
      some ({ sh with
        clients := ⟨sh.nextObj, adap, addr⟩ :: sh.clients
        nextObj := sh.nextObj + 1
        log := .created ⟨sh.nextObj, adap, addr⟩ :: sh.log }, ⟨sh.nextObj, adap, addr⟩) := by
  rw [Shared.i2cNewClientDevice, if_neg (by simp [hfault, hmem])]

/-- **A step of an undisturbed pass** takes it further, to the sensors in the end. -/
theorem claimedStep_onTrack {sh : Shared} {env : Env} {pc : ClaimedPc} (hnr : sh.DistinctNrs)
    (henv : env.Obliging) (h : OnTrack P sh pc) :
    (claimedStep P sh env pc).1.failures = sh.failures ∧
      match (claimedStep P sh env pc).2 with
      | some pc' => OnTrack P (claimedStep P sh env pc).1 pc'
      | none => (claimedStep P sh env pc).1.Served P := by
  obtain ⟨hfault, hgood⟩ := henv
  -- each step succeeds, and the invariant of a position leads to that of the next
  cases pc with
  | walk =>
    obtain ⟨-, hclients, hbus⟩ := h
    obtain ⟨adap, hmem, hsensor, hid⟩ := i2cForEachDev_adapterId hbus (sh.clients.map .client) _
    exact ⟨rfl, hclients, adap, hmem, hsensor, hid⟩
  | get id =>
    obtain ⟨hclients, adap, hmem, hsensor, rfl⟩ := h
    have hfound := Shared.i2cGetAdapter_of_mem hnr hfault hmem
    simp only [claimedStep, Int.natCast_nonneg, if_true, hfound]
    exact ⟨trivial, hclients, hmem, hsensor⟩
  | gate adap =>
    obtain ⟨hclients, hmem, hsensor⟩ := h
    have hgate : ((astralCardMatches adap P.allowUnknown).isSome &&
        astralAdapterSelected P adap) = true := by
      rw [Bool.and_eq_true]
      exact hsensor
    have hnew := Shared.i2cNewClientDevice_of_mem hfault hmem P.addr
    simp only [claimedStep, hgate, if_true, hnew]
    exact ⟨by simp [Shared.failures], by rw [hclients], hsensor⟩
  | publish client => exact ⟨rfl, h, rfl⟩
  | alloc client =>
    simp only [claimedStep, hfault, Option.isSome_none, Bool.false_eq_true, if_false]
    exact ⟨trivial, h⟩
  | refresh client =>
    -- a plausible answer is what the refresh takes
    obtain ⟨htransfer, ⟨hret, -⟩ | ⟨-, hbad⟩⟩ := astralRefresh_zeroed P.ttl env.io
    · simp only [claimedStep, htransfer, hret]
      exact ⟨by simp [Shared.failures, Shared.note], h⟩
    · exact absurd hgood hbad
  | register client =>
    simp only [claimedStep, hfault, Option.isSome_none, Bool.false_eq_true, if_false]
    exact ⟨by simp [Shared.failures, Shared.note], h.1, h.2, List.mem_cons_self⟩
  | settle client =>
    cases client with
    | none => exact h.elim
    | some client => exact ⟨rfl, client, h⟩
  -- the error path is not on the way
  | unpublish | unregister => exact h.elim

/-! ### What goes on beside it -/

/-- Nothing a pass relies on is taken away. -/
structure Spares (P : Setup) (sh sh' : Shared) : Prop where
  adapters : ∀ adap ∈ sh.adapters, P.Sensor adap → adap ∈ sh'.adapters
  clients : sh'.clients = sh.clients
  pointer : sh'.astralClient = sh.astralClient
  log : sh.log <:+ sh'.log
  failures : sh'.failures = sh.failures

theorem Spares.of_eq {sh sh' : Shared} (hadapters : sh'.adapters = sh.adapters)
    (hclients : sh'.clients = sh.clients) (hptr : sh'.astralClient = sh.astralClient)
    (hlog : sh'.log = sh.log) : Spares P sh sh' where
  adapters adap hmem _ := hadapters ▸ hmem
  clients := hclients
  pointer := hptr
  log := hlog ▸ List.suffix_refl _
  failures := by rw [Shared.failures, Shared.failures, hlog]

theorem Spares.only {sh sh' : Shared} {client : I2cClient} (hk : Spares P sh sh')
    (h : sh.Only P client) : sh'.Only P client :=
  ⟨hk.clients.trans h.1, h.2⟩

theorem Spares.ready {sh sh' : Shared} (hk : Spares P sh sh') (h : sh.Ready P) : sh'.Ready P := by
  obtain ⟨hptr, hclients, adap, hmem, hsensor⟩ := h
  exact ⟨hk.pointer.trans hptr, hk.clients.trans hclients, adap, hk.adapters adap hmem hsensor,
    hsensor⟩

theorem Spares.served {sh sh' : Shared} (hk : Spares P sh sh') (h : sh.Served P) :
    sh'.Served P := by
  obtain ⟨client, honly, hptr, hhwmon⟩ := h
  exact ⟨client, hk.only honly, hk.pointer.trans hptr, hk.log.subset hhwmon⟩

theorem Spares.onTrack {sh sh' : Shared} {pc : ClaimedPc} (hk : Spares P sh sh')
    (h : OnTrack P sh pc) : OnTrack P sh' pc := by
  cases pc with
  | walk => exact hk.ready h
  | get id =>
    obtain ⟨hclients, adap, hmem, hsensor, hid⟩ := h
    exact ⟨hk.clients.trans hclients, adap, hk.adapters adap hmem hsensor, hsensor, hid⟩
  | gate adap =>
    obtain ⟨hclients, hmem, hsensor⟩ := h
    exact ⟨hk.clients.trans hclients, hk.adapters adap hmem hsensor, hsensor⟩
  | publish client => exact hk.only h
  | alloc client | refresh client | register client =>
    exact ⟨hk.only h.1, hk.pointer.trans h.2⟩
  | settle client =>
    cases client with
    | none => exact h.elim
    | some client => exact ⟨hk.only h.1, hk.pointer.trans h.2.1, hk.log.subset h.2.2⟩
  | unpublish | unregister => exact h.elim

/-! ### The two threads -/

/-- The pass of either thread is on track, and between passes the sensors exist or a pass can
begin. -/
structure Course (P : Setup) (sh : Shared) (mine other : Option ClaimedPc) : Prop where
  onTrack : ∀ pc, mine = some pc ∨ other = some pc → OnTrack P sh pc
  landed : mine = none → other = none → sh.Ready P ∨ sh.Served P

/-- A pass has taken the claim. -/
def Begun (P : Setup) (sh : Shared) (mine other : Option ClaimedPc) : Prop :=
  mine = none → other = none → sh.Served P

variable {sh sh' : Shared} {mine other : Option ClaimedPc}

theorem Course.symm (h : Course P sh mine other) : Course P sh other mine :=
  ⟨fun pc hpc => h.onTrack pc hpc.symm, fun hmine hother => h.landed hother hmine⟩

theorem Begun.symm (h : Begun P sh mine other) : Begun P sh other mine :=
  fun hmine hother => h hother hmine

theorem Course.spares (h : Course P sh mine other) (hk : Spares P sh sh') :
    Course P sh' mine other :=
  ⟨fun pc hpc => hk.onTrack (h.onTrack pc hpc),
    fun hmine hother => (h.landed hmine hother).imp hk.ready hk.served⟩

theorem Begun.spares (h : Begun P sh mine other) (hk : Spares P sh sh') :
    Begun P sh' mine other := fun hmine hother => hk.served (h hmine hother)

/-- The driver has no client but one on an adapter of the sensor's. -/
theorem Course.clients (h : Course P sh mine other) :
    sh.clients = [] ∨ ∃ client, sh.Only P client := by
  -- up to the publication there is none, and then it is the pass's own
  have hpass {pc : ClaimedPc} (ht : OnTrack P sh pc) :
      sh.clients = [] ∨ ∃ client, sh.Only P client := by
    rcases pc with _ | _ | _ | _ | _ | _ | _ | _ | _ | (_ | _)
    · exact Or.inl ht.2.1
    · exact Or.inl ht.1
    · exact Or.inl ht.1
    · exact Or.inr ⟨_, ht⟩
    · exact Or.inr ⟨_, ht.1⟩
    · exact Or.inr ⟨_, ht.1⟩
    · exact Or.inr ⟨_, ht.1⟩
    · exact ht.elim
    · exact ht.elim
    · exact ht.elim
    · exact Or.inr ⟨_, ht.1⟩
  cases mine with
  | some pc => exact hpass (h.onTrack pc (Or.inl rfl))
  | none =>
    cases other with
    | some pc => exact hpass (h.onTrack pc (Or.inr rfl))
    | none =>
      rcases h.landed rfl rfl with hready | ⟨client, honly, -⟩
      · exact Or.inl hready.2.1
      · exact Or.inr ⟨client, honly⟩

/-- **A step of a call** in an undisturbed run, beside the other thread. -/
theorem Pass.step_course {env : Env} {call : Pass} (hnr : sh.DistinctNrs)
    (henv : env.Obliging) (hexcl : call.claimed = none ∨ other = none)
    (hflag : sh.astralClaiming = (call.claimed.isSome || other.isSome))
    (h : Course P sh call.claimed other) :
    Course P (call.step P sh env).1 (call.step P sh env).2.claimed other ∧
      (call.step P sh env).1.failures = sh.failures ∧
      (call.pc = .claim ∨ Begun P sh call.claimed other →
        Begun P (call.step P sh env).1 (call.step P sh env).2.claimed other) := by
  obtain ⟨pc, scan⟩ := call
  cases pc with
  | claim =>
    have hlanded : other = none → sh.Ready P ∨ sh.Served P := fun hother => h.landed rfl hother
    simp only [Pass.step]
    split_ifs with hbusy
    · refine ⟨h, rfl, fun _ _ hother => ?_⟩
      -- no pass holds the claim, so it was a published chip that turned the call away
      have hfree : sh.astralClaiming = false := by rw [hflag, hother]; rfl
      rcases hlanded hother with hready | hserved
      · simp [hready.1, hfree] at hbusy
      · exact hserved
    · simp only [Bool.or_eq_true, not_or, Bool.not_eq_true, Option.isSome_eq_false_iff,
        Option.isNone_iff_eq_none] at hbusy
      -- the claim is free, so the other thread is not in its pass and the chip is still to come
      have hother : other = none := by
        have hnone : (false || other.isSome) = false := hflag.symm.trans hbusy.2
        simpa using hnone
      have hready : sh.Ready P := by
        refine (hlanded hother).resolve_right ?_
        rintro ⟨client, -, hptr, -⟩
        exact absurd (hptr.symm.trans hbusy.1) (by simp)
      refine ⟨⟨fun pc hpc => ?_, fun hmine => absurd hmine (by simp [Pass.claimed])⟩, rfl,
        fun _ hmine => absurd hmine (by simp [Pass.claimed])⟩
      obtain rfl : .walk = pc := by simpa [Pass.claimed, hother] using hpc
      exact hready
  | claimed pc =>
    have hother : other = none := hexcl.resolve_left (by simp [Pass.claimed])
    -- the pass that holds the claim is on track, and the other thread holds none
    obtain ⟨hfailures, hnext⟩ := claimedStep_onTrack hnr henv (h.onTrack pc (Or.inl rfl))
    simp only [Pass.step]
    cases hpc : (claimedStep P sh env pc).2 with
    | some pc' =>
      rw [hpc] at hnext
      refine ⟨⟨fun pc'' hpc'' => ?_, fun hmine => absurd hmine (by simp [Pass.claimed])⟩,
        hfailures, fun _ hmine => absurd hmine (by simp [Pass.claimed])⟩
      obtain rfl : pc' = pc'' := by simpa [Pass.claimed, hother] using hpc''
      exact hnext
    | none =>
      rw [hpc] at hnext
      refine ⟨⟨fun pc'' hpc'' => ?_, fun _ _ => Or.inr hnext⟩, hfailures, fun _ _ _ => hnext⟩
      simp [Pass.claimed, hother] at hpc''
  -- what a call does without the claim changes nothing
  | put | returned =>
    refine ⟨h, rfl, fun hbegun => hbegun.resolve_left (by simp)⟩

/-! ### An undisturbed run -/

/-- What holds all through it. -/
structure OnCourse (P : Setup) (s : St) : Prop where
  control : Control s
  nrs : s.sh.DistinctNrs
  exit : s.exit = .idle
  course : Course P s.sh s.init.claimed s.worker.claimed

/-- Some pass has taken the claim. -/
def St.Begun (P : Setup) (s : St) : Prop :=
  Astral.Begun P s.sh s.init.claimed s.worker.claimed

/-- What a step of it does. -/
structure Proceeds (P : Setup) (s s' : St) : Prop where
  course : OnCourse P s'
  failures : s'.sh.failures = s.sh.failures
  begun : s.Begun P → s'.Begun P

/-- A step outside the passes. -/
theorem OnCourse.spares {s s' : St} {a : Action} (h : OnCourse P s) (hnext : next P s a = some s')
    (hk : Spares P s.sh s'.sh) (hexit : s'.exit = .idle)
    (hinit : s'.init.claimed = s.init.claimed)
    (hworker : s'.worker.claimed = s.worker.claimed) : Proceeds P s s' where
  course :=
    { control := h.control.step (Step.of_next hnext)
      nrs := next_distinctNrs h.nrs hnext
      exit := hexit
      course := by
        rw [hinit, hworker]
        exact h.course.spares hk }
  failures := hk.failures
  begun hbegun := by
    rw [St.Begun, hinit, hworker]
    exact hbegun.spares hk

theorem CoreStep.spares {s : St} {a : Action} (hok : Undisturbed P s a)
    (hclients : s.sh.clients = [] ∨ ∃ client, s.sh.Only P client)
    (h : CoreStep P s.sh a sh') : Spares P s.sh sh' := by
  cases h with
  | addAdapter =>
    exact ⟨fun adap hmem _ => List.mem_append_left _ hmem, rfl, rfl, List.suffix_refl _, rfl⟩
  | notifyIgnored | notifyAdd | rearm => exact .of_eq rfl rfl rfl rfl
  | @removeAdapter adap =>
    have hsame : s.sh.delAdapter adap = { s.sh with adapters := s.sh.adapters.erase adap } := by
      rcases hclients with hnil | ⟨client, hone, hsensor⟩
      · exact Shared.delAdapter_nil adap hnil
      · -- the client is on another adapter
        exact Shared.delAdapter_other hone fun heq => hok (heq ▸ hsensor)
    rw [hsame]
    refine ⟨fun x hmem hsensor => ?_, rfl, rfl, List.suffix_refl _, rfl⟩
    have hne : x ≠ adap := fun heq => hok (heq ▸ hsensor)
    exact (List.mem_erase_of_ne hne).mpr hmem
  | hwmonRead =>
    refine ⟨fun _ hmem _ => hmem, rfl, rfl, List.suffix_cons _ _, ?_⟩
    simp [Shared.failures]

theorem next_initPass {s s' : St} {env : Env} {call : Pass} (hinit : s.init = .pass call)
    (hnext : next P s (.init env) = some s') :
    s' = { s with
      sh := (call.step P s.sh env).1
      init := .afterPass (call.step P s.sh env).2 } := by
  simp only [next, hinit, InitPc.step, Option.map_some, Option.some.injEq] at hnext
  exact hnext.symm

theorem next_workerPass {s s' : St} {env : Env} {call : Pass} (hworker : s.worker = .pass call)
    (hnext : next P s (.worker env) = some s') :
    s' = { s with
      sh := (call.step P s.sh env).1
      worker := .afterPass (call.step P s.sh env).2 } := by
  simp only [next, hworker, WorkerPc.step, Option.map_some, Option.some.injEq] at hnext
  exact hnext.symm

theorem OnCourse.initPass {s s' : St} {env : Env} {call : Pass} (h : OnCourse P s)
    (hinit : s.init = .pass call) (henv : env.Obliging)
    (hnext : next P s (.init env) = some s') :
    Proceeds P s s' ∧ (call.pc = .claim → s'.Begun P) := by
  have hcontrol := h.control.step (Step.of_next hnext)
  have hnrs := next_distinctNrs h.nrs hnext
  obtain rfl := next_initPass hinit hnext
  have hold : s.init.claimed = call.claimed := by rw [hinit]; rfl
  -- the step of the pass, with the worker's pass as the other one
  obtain ⟨hcourse, hfailures, hbegun⟩ := Pass.step_course h.nrs henv
    (hold ▸ h.control.exclusive) (hold ▸ h.control.claiming) (hold ▸ h.course)
  have hbegun' (hb : call.pc = .claim ∨ s.Begun P) :
      St.Begun P { s with
        sh := (call.step P s.sh env).1
        init := .afterPass (call.step P s.sh env).2 } := by
    rw [St.Begun, InitPc.claimed_afterPass]
    exact hbegun (hb.imp_right fun hb => hold ▸ hb)
  refine ⟨⟨⟨hcontrol, hnrs, h.exit, ?_⟩, hfailures, fun hb => hbegun' (Or.inr hb)⟩,
    fun hpc => hbegun' (Or.inl hpc)⟩
  rw [InitPc.claimed_afterPass]
  exact hcourse

theorem OnCourse.workerPass {s s' : St} {env : Env} {call : Pass} (h : OnCourse P s)
    (hworker : s.worker = .pass call) (henv : env.Obliging)
    (hnext : next P s (.worker env) = some s') :
    Proceeds P s s' ∧ (call.pc = .claim → s'.Begun P) := by
  have hcontrol := h.control.step (Step.of_next hnext)
  have hnrs := next_distinctNrs h.nrs hnext
  obtain rfl := next_workerPass hworker hnext
  have hold : s.worker.claimed = call.claimed := by rw [hworker]; rfl
  -- the same with the two passes in each other's place
  obtain ⟨hcourse, hfailures, hbegun⟩ := Pass.step_course h.nrs henv
    (hold ▸ h.control.exclusive.symm) (hold ▸ (Bool.or_comm _ _ ▸ h.control.claiming))
    (hold ▸ h.course.symm)
  have hbegun' (hb : call.pc = .claim ∨ s.Begun P) :
      St.Begun P { s with
        sh := (call.step P s.sh env).1
        worker := .afterPass (call.step P s.sh env).2 } := by
    rw [St.Begun, WorkerPc.claimed_afterPass]
    exact (hbegun (hb.imp_right fun hb => hold ▸ hb.symm)).symm
  refine ⟨⟨⟨hcontrol, hnrs, h.exit, ?_⟩, hfailures, fun hb => hbegun' (Or.inr hb)⟩,
    fun hpc => hbegun' (Or.inl hpc)⟩
  rw [WorkerPc.claimed_afterPass]
  exact hcourse.symm

/-- **Every undisturbed step keeps to the course**, and fails no pass. -/
theorem OnCourse.step {s s' : St} {a : Action} (h : OnCourse P s) (hok : Undisturbed P s a)
    (hnext : next P s a = some s') : Proceeds P s s' := by
  have hidle (pos : ExitPc) (hpos : s.exit = pos) : pos = .idle := hpos ▸ h.exit
  cases Step.of_next hnext with
  -- what the machine does spares the sensor adapter and the client on it
  | core hcore => exact h.spares hnext (hcore.spares hok h.course.clients) h.exit rfl rfl
  | refuse hinit =>
    refine h.spares hnext (.of_eq rfl rfl rfl rfl) h.exit ?_ rfl
    rcases hinit with hinit | hinit <;> rw [hinit] <;> rfl
  | cardPresent hinit | registerNotifier hinit | initAttached hinit | initNotAttached hinit
  | initSchedule hinit =>
    refine h.spares hnext (.of_eq rfl rfl rfl rfl) h.exit ?_ rfl
    rw [hinit]; rfl
  | initPass hinit => exact (h.initPass hinit hok hnext).1
  | workerPass hworker => exact (h.workerPass hworker hok hnext).1
  | workerStart _ hworker | workerAttached hworker | workerNotAttached hworker
  | workerCount hworker | workerRetry hworker | workerGiveUp hworker =>
    refine h.spares hnext (.of_eq rfl rfl rfl rfl) h.exit rfl ?_
    rw [hworker]; rfl
  | exitStart => exact hok.elim
  -- nobody unloads
  | unregisterNotifier hpos | cancel hpos | wait hpos | release hpos | nothingToRelease hpos
  | exitUnregister hpos | clear hpos => exact absurd (hidle _ hpos) (by simp)

/-- **Run rule of an undisturbed run**, for an invariant `I` that its steps preserve. -/
theorem OnCourse.run {I : St → Prop} {s t : St} {l : List (St × Action)}
    (hstep : ∀ u a v, OnCourse P u → I u → Undisturbed P u a → next P u a = some v → I v)
    (h : OnCourse P s) (hI : I s) (hp : Run (lifecycle P) s l t)
    (hok : Guarded (Undisturbed P) l) :
    OnCourse P t ∧ I t ∧ t.sh.failures = s.sh.failures := by
  induction hp with
  | refl => exact ⟨h, hI, rfl⟩
  | tail _ hlast ih =>
    obtain ⟨hl, ha⟩ := Guarded.append_iff.mp hok
    have ha := Guarded.singleton_iff.mp ha
    obtain ⟨ht, hIt, hfailures⟩ := ih hl
    have hproceeds := ht.step ha hlast
    exact ⟨hproceeds.course, hstep _ _ _ ht hIt ha hlast, hproceeds.failures.trans hfailures⟩

/-! ### The load -/

/-- The module is not refused: its parameters are in order and the machine has the card. -/
structure Setup.Sound (P : Setup) : Prop where
  addr : 0x08 ≤ P.addr ∧ P.addr ≤ 0x77
  card : (astralCardPresent P.pci P.allowUnknown).isSome = true

/-- Neither of the two steps that can refuse the module does. -/
theorem next_init_alive {s s' : St} {env : Env} {ret : Errno} (hP : P.Sound)
    (henv : env.Obliging) (hnext : next P s (.init env) = some s')
    (hinit : s.init = .start ∨ s.init = .registerNotifier) : s'.init ≠ .failed ret := by
  rcases hinit with hinit | hinit
  · have haddr : ¬ (P.addr < 0x08 ∨ 0x77 < P.addr) := by
      have := hP.addr
      omega
    have hcard : ¬ (astralCardPresent P.pci P.allowUnknown).isNone = true := by
      rw [Option.isNone_iff_eq_none, ← Option.not_isSome_iff_eq_none, not_not]
      exact hP.card
    simp only [next, hinit, InitPc.step, if_neg haddr, if_neg hcard, Option.map_some,
      Option.some.injEq] at hnext
    simp [← hnext]
  · simp only [next, hinit, InitPc.step, henv.1, Option.map_some, Option.some.injEq] at hnext
    simp [← hnext]

/-- `astral_init` is past the claim of its pass. -/
def InitPc.probed : InitPc → Bool
  | .start | .registerNotifier | .pass ⟨.claim, _⟩ | .failed _ => false
  | _ => true

theorem InitPc.probed_of_ne {call : Pass} (h : call.pc ≠ .claim) :
    (InitPc.pass call).probed = true := by
  obtain ⟨pc, scan⟩ := call
  cases pc with
  | claim => exact absurd rfl h
  | _ => rfl

theorem InitPc.afterPass_ne_failed (call : Pass) (ret : Errno) :
    InitPc.afterPass call ≠ .failed ret := by
  unfold InitPc.afterPass
  split_ifs <;> simp

/-- The load is under way or done, and once its pass is past the claim some pass has taken it. -/
structure Loading (P : Setup) (s : St) : Prop where
  alive : ∀ ret, s.init ≠ .failed ret
  begun : s.init.probed = true → s.Begun P

theorem Loading.step {s s' : St} {a : Action} (hP : P.Sound) (hc : OnCourse P s)
    (h : Loading P s) (hok : Undisturbed P s a) (hnext : next P s a = some s') :
    Loading P s' := by
  have hkeep := (hc.step hok hnext).begun
  cases Step.of_next hnext with
  | refuse hinit => exact absurd rfl (next_init_alive hP hok hnext hinit)
  | cardPresent | registerNotifier =>
    exact ⟨by simp, fun hprobed => absurd hprobed Bool.false_ne_true⟩
  | initAttached hinit | initNotAttached hinit | initSchedule hinit =>
    exact ⟨by simp, fun _ => hkeep (h.begun (by rw [hinit]; rfl))⟩
  | @initPass env call _ _ hinit =>
    refine ⟨InitPc.afterPass_ne_failed _, fun _ => ?_⟩
    by_cases hpc : call.pc = .claim
    · exact (hc.initPass hinit hok hnext).2 hpc
    · exact hkeep (h.begun (by rw [hinit]; exact InitPc.probed_of_ne hpc))
  | _ => exact ⟨h.alive, fun hprobed => hkeep (h.begun hprobed)⟩

/-- The course of a run begins without a pass. -/
theorem OnCourse.of_ready {s : St} (h : Reachable (lifecycle P) s) (hexit : s.exit = .idle)
    (hflight : s.flight = none) (hready : s.sh.Ready P) : OnCourse P s := by
  obtain ⟨hinit, hworker⟩ : s.init.claimed = none ∧ s.worker.claimed = none := by
    simpa [St.flight] using hflight
  refine ⟨control_reachable h, distinctNrs_reachable h, hexit, ⟨?_, fun _ _ => Or.inl hready⟩⟩
  rw [hinit, hworker]
  simp

/-- A worker that is not started stays where it is. -/
theorem worker_idle_of_run {s t : St} {l : List (St × Action)} (h : s.worker = .idle)
    (hp : Run (lifecycle P) s l t) (hnone : ∀ p ∈ l, p.2 ≠ .workerStart) : t.worker = .idle := by
  induction hp with
  | refl => exact h
  | @tail u v m a _ hlast ih =>
    have hu : u.worker = .idle := ih fun p hmem => hnone p (List.mem_append_left _ hmem)
    have hnext : next P u a = some v := hlast
    have hstart : a ≠ .workerStart :=
      hnone (u, a) (List.mem_append_right _ List.mem_cons_self)
    refine (next_worker_eq hnext hstart ?_).trans hu
    rintro env rfl
    simp [next, hu, WorkerPc.step] at hnext

/-- **`modprobe astral-hwmon && sensors` works.** Let the card be up when the module is loaded,
and nothing go wrong for the driver from there on. However the load is interleaved with the
worker, with arrivals and with removals of other adapters, the module is not refused, no probe
pass fails, and once `astral_init` has returned the sensors exist: the pointer is on a client
that is registered, with its hwmon device, on an adapter of the sensor's — or a pass that the
worker has begun meanwhile is about to bring that about. Without the worker, which is queued for
later, they do exist. -/
theorem astral_load_attaches {s t : St} {l : List (St × Action)} (hP : P.Sound)
    (h : Reachable (lifecycle P) s) (hinit : s.init = .start)
    (hbus : SensorBus P s.sh.adapters) (hp : Run (lifecycle P) s l t)
    (hok : Guarded (Undisturbed P) l) :
    (∀ ret, t.init ≠ .failed ret) ∧ t.sh.failures = s.sh.failures ∧
      (t.init = .done → t.flight = none → t.sh.Served P) ∧
      (t.init = .done → (∀ p ∈ l, p.2 ≠ .workerStart) → t.sh.Served P) := by
  have hc := control_reachable h
  -- before the load the driver has nothing, and no thread of it runs
  obtain ⟨-, -, -, hworker, hptr, hclients⟩ := hc.dormant (by rw [hinit]; rfl)
  have hexit : s.exit = .idle := by
    by_contra hne
    exact absurd (hc.exiting hne) (by simp [hinit])
  have hflight : s.flight = none := by rw [St.flight, hinit, hworker]; rfl
  have hs := OnCourse.of_ready h hexit hflight ⟨hptr, hclients, hbus⟩
  have hloading : Loading P s :=
    ⟨by simp [hinit], fun hprobed => absurd hprobed (by rw [hinit]; decide)⟩
  obtain ⟨-, ht, hfailures⟩ := hs.run (fun _ _ _ hu hI => Loading.step hP hu hI) hloading hp hok
  -- a claim that was taken has led to the chip, once it is given up
  have hserved (hdone : t.init = .done) (hworker : t.worker.claimed = none) :
      t.sh.Served P := ht.begun (by rw [hdone]; rfl) (by rw [hdone]; rfl) hworker
  refine ⟨ht.alive, hfailures, fun hdone hflight => ?_, fun hdone hnone => ?_⟩
  · rw [St.flight, hdone] at hflight
    exact hserved hdone hflight
  · rw [worker_idle_of_run hworker hp hnone] at hserved
    exact hserved hdone rfl

/-- The load of the module on the machine with one card, whose other adapter arrives while
`astral_init` is in its pass; the worker that this queues is turned away. -/
def loadBeside : List Action :=
  List.replicate 3 (.init .idle) ++
    [.addAdapter 2 (otherAdapter 1 2).name (otherAdapter 1 2).parent,
      .notifyAdd (otherAdapter 1 2), .rearm, .workerStart] ++
    List.replicate 4 (.worker .idle) ++ List.replicate 10 (.init .idle)

theorem astral_load_attaches_beside :
    ∃ (s t : St) (l : List (St × Action)), Reachable (lifecycle oneCard) s ∧
      Run (lifecycle oneCard) s l t ∧ t.init = .done ∧ t.sh.failures = 0 ∧
      t.sh.Served oneCard := by
  have hrun : (System.exec (next oneCard) St.boot addSensor).any (fun s =>
      decide (s.init = .start ∧ SensorBus oneCard s.sh.adapters ∧ s.sh.failures = 0) &&
        (System.execBy (next oneCard) (Undisturbed oneCard) s loadBeside).any fun t =>
          decide (t.init = .done ∧ t.flight = none)) = true := by
    decide +kernel
  obtain ⟨s, hexec, ⟨hinit, hbus, hnone⟩, hs⟩ := System.any_decide_and_iff.mp hrun
  obtain ⟨t, hexect, hdone, hflight⟩ := System.any_decide_iff.mp hs
  obtain ⟨l, hp, hok⟩ := System.execBy_run hexect
  have hreach : Reachable (lifecycle oneCard) s := System.exec_reachable rfl hexec
  have hP : oneCard.Sound := ⟨by decide, by decide⟩
  obtain ⟨-, hfailures, hserved, -⟩ := astral_load_attaches hP hreach hinit hbus hp hok
  exact ⟨s, t, l, hreach, hp, hdone, hfailures.trans hnone, hserved hdone hflight⟩

/-! ### A run of the worker -/

/-- `astral_init` has returned, and the worker's pass is about to take the claim unless some pass
has it, or had it. -/
structure Retrying (P : Setup) (s : St) : Prop where
  done : s.init = .done
  begun : s.Begun P ∨ ∃ scan, s.worker = .pass ⟨.claim, scan⟩

theorem Retrying.step {s s' : St} {a : Action} (hc : OnCourse P s) (h : Retrying P s)
    (hok : Undisturbed P s a) (hnext : next P s a = some s') : Retrying P s' := by
  have hstep := Step.of_next hnext
  refine ⟨hstep.init_done h.done, ?_⟩
  rcases h.begun with hbegun | ⟨scan, hclaim⟩
  · exact Or.inl ((hc.step hok hnext).begun hbegun)
  cases hstep with
  | @workerPass env call _ _ hworker =>
    obtain rfl : ⟨.claim, scan⟩ = call := WorkerPc.pass.inj (hclaim.symm.trans hworker)
    exact Or.inl ((hc.workerPass hworker hok hnext).2 rfl)
  | workerStart _ hworker | workerAttached hworker | workerNotAttached hworker
  | workerCount hworker | workerRetry hworker | workerGiveUp hworker =>
    exact absurd (hclaim.symm.trans hworker) (by simp)
  | _ => exact Or.inr ⟨scan, hclaim⟩

/-- **A retry finds the card.** Once the sensor's adapter is there, the next run of the worker
ends with the sensors in place if nothing goes wrong for it: it need not be the one that the
adapter's own arrival arms, and nothing that happens beside it makes it miss the chip. -/
theorem astral_worker_attaches {s s₁ t : St} {l : List (St × Action)}
    (h : Reachable (lifecycle P) s) (hdone : s.init = .done) (hexit : s.exit = .idle)
    (hready : s.sh.Ready P) (hstart : next P s .workerStart = some s₁)
    (hp : Run (lifecycle P) s₁ l t) (hok : Guarded (Undisturbed P) l)
    (hidle : t.worker = .idle) : t.sh.Served P ∧ t.sh.failures = s.sh.failures := by
  have hreach : Reachable (lifecycle P) s₁ := h.run (Run.single hstart)
  obtain rfl := next_workerStart hstart
  have hs : OnCourse P _ := OnCourse.of_ready hreach hexit (by rw [St.flight, hdone]; rfl) hready
  obtain ⟨-, ht, hfailures⟩ := hs.run (fun _ _ _ hu hI => Retrying.step hu hI)
    ⟨hdone, Or.inr ⟨_, rfl⟩⟩ hp hok
  refine ⟨?_, hfailures⟩
  rcases ht.begun with hbegun | ⟨scan, hclaim⟩
  · exact hbegun (by rw [ht.done]; rfl) (by rw [hidle]; rfl)
  · exact absurd (hidle.symm.trans hclaim) (by simp)

/-- Another adapter of the card comes, and goes, while the worker is in its pass. -/
def retryBeside : List Action :=
  List.replicate 3 (.worker .idle) ++
    [.addAdapter 2 (otherAdapter 1 2).name (otherAdapter 1 2).parent,
      .notifyAdd (otherAdapter 1 2), .removeAdapter (otherAdapter 1 2)] ++
    List.replicate 8 (.worker .idle)

/-- The card is late: the first pass of `astral_init` has failed when its adapter is published,
and the worker it has queued finds it. -/
theorem astral_worker_attaches_late :
    ∃ (s s₁ t : St) (l : List (St × Action)), Reachable (lifecycle oneCard) s ∧
      s.sh.failures = 1 ∧ next oneCard s .workerStart = some s₁ ∧
      Run (lifecycle oneCard) s₁ l t ∧ t.sh.Served oneCard ∧ t.sh.failures = 1 := by
  have hrun : (System.exec (next oneCard) St.boot (loadRefused ++ addSensor)).any (fun s =>
      decide (s.init = .done ∧ s.exit = .idle ∧ s.sh.failures = 1 ∧ s.sh.astralClient = none ∧
        s.sh.clients = [] ∧ SensorBus oneCard s.sh.adapters) &&
        (next oneCard s .workerStart).any fun s₁ =>
          (System.execBy (next oneCard) (Undisturbed oneCard) s₁ retryBeside).any fun t =>
            decide (t.worker = .idle)) = true := by
    decide +kernel
  obtain ⟨s, hexec, ⟨hdone, hexit, hone, hready⟩, hs⟩ := System.any_decide_and_iff.mp hrun
  obtain ⟨s₁, hstart, hs₁⟩ := Option.any_eq_true _ _ |>.mp hs
  obtain ⟨t, hexect, hidle⟩ := System.any_decide_iff.mp hs₁
  obtain ⟨l, hp, hok⟩ := run_of_execBy hexect
  have hreach : Reachable (lifecycle oneCard) s := System.exec_reachable rfl hexec
  obtain ⟨hserved, hfailures⟩ :=
    astral_worker_attaches (P := oneCard) hreach hdone hexit hready hstart hp hok hidle
  exact ⟨s, s₁, t, l, hreach, hone, hstart, hp, hserved, hfailures.trans hone⟩

end Astral
