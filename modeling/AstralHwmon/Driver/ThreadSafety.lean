import AstralHwmon.Driver.BusGate
import AstralHwmon.Driver.LockDiscipline
import AstralHwmon.Driver.Ownership
import AstralHwmon.Lib.Token

/-!
# One pass at a time, and none off the card, statement by statement

`lifecycle` takes a critical section or a call into a core for one step, and deletes an
adapter with its clients and their notifications in one. In `threads` all of this comes apart:
the callbacks run on the stack of whoever adds or deletes a device, and other threads step in
between any two statements. What the driver promises about the bus does not depend on the
difference.

`astral_claiming` works as a lock on its own (`claimToken`): it is tested and raised in one
critical section, and the pass that has raised it lowers it in another. With what holds of a
frame and its caller this makes `astral_attach` exclusive (`astral_oneAttach`). And every
frame of the attach has behind it what the pass has checked before (`Justified`), so that the
record is as it is in `lifecycle` (`astral_threads_recognisedCardOnly`).
-/

open Transition Monitor

namespace Astral.Threads

variable {P : Setup}

/-! ### The claim -/

/-- `astral_probe_once` is past raising `astral_claiming`, and has not lowered it. -/
def ProbeOncePc.claims : ProbeOncePc → Bool
  | .unlockClaim | .walk | .get _ | .gate _ | .lockSettle _ _ | .settle _ _ => true
  | _ => false

/-- The frame of a pass that has raised `astral_claiming`. -/
def Frame.claims : Frame → Bool
  | .probeOnce _ pc => pc.claims
  | _ => false

/-- `astral_claiming`. -/
def claimToken : Token Kernel Frame where
  raised k := k.sh.astralClaiming
  holds := Frame.claims

/-- A frame of `astral_attach`. -/
def Frame.attaches : Frame → Bool
  | .attach _ => true
  | _ => false

/-! ### What stands behind a frame -/

/-- The client that a position of `astral_attach` works on. -/
def AttachPc.client : AttachPc → Option I2cClient
  | .create _ => none
  | .lock c | .publish c | .unlock c | .alloc c | .refresh c | .register c | .lockErr c
  | .unpublish c | .unlockErr c | .unregister c => some c
  | .ret c => c

/-- What a frame of the attach relies on: the gate, the record of its client, and of a good
transfer on it. -/
structure AttachPc.Justified (P : Setup) (log : List Event) (pc : AttachPc) : Prop where
  gate : ∀ adap, pc = .create adap → (astralCardMatches adap P.allowUnknown).isSome = true ∧
    astralAdapterSelected P adap = true
  client : ∀ c, pc.client = some c → .created c ∈ log
  good : ∀ c, pc = .register c → ∃ result, result.Good ∧ .transfer c result ∈ log

/-- The same of any frame. -/
def Justified (P : Setup) (k : Kernel) (_ : Tid) : Frame → Prop
  | .attach pc => pc.Justified P k.sh.log
  | _ => True

/-- Events that need no justification. -/
def Event.routine : Event → Bool
  | .created _ | .transfer _ _ | .hwmon _ => false
  | .deleted _ | .unregistered _ | .passFailed => true

/-- What an event on the record comes from: a statement of `astral_attach`. -/
def Event.Of (f : Frame) : Event → Prop
  | .created c => f = .attach (.create c.adapter)
  | .transfer c _ => f = .attach (.refresh c)
  | .hwmon c => f = .attach (.register c)
  | .deleted _ | .unregistered _ | .passFailed => True

/-- A frame of the attach is called by a pass that holds the claim. -/
def Called (f : Frame) (caller : Option Frame) : Prop :=
  f.attaches = true → caller.any Frame.claims = true

/-- What a statement of a frame does to the record and to the claim. -/
structure Does (P : Setup) (k : Kernel) (t : Tid) (f : Frame) (i : Statement) : Prop where
  news : ∃ new, (i.data k).sh.log = new ++ k.sh.log ∧ ∀ e ∈ new, Event.Of f e
  frames : Justified P k t f → ∀ g ∈ i.frames, Justified P (i.data k) t g
  claim : claimToken.Obeys k f i
  callers : ∀ caller, Called f caller → i.Stacks Called caller

/-! ### The functions that are no part of a pass -/

/-- A frame that neither attaches nor holds the claim. -/
def Frame.still (f : Frame) : Bool := !f.attaches && !f.claims

/-- A statement of such a frame leaves the claim alone, and records routine only. -/
structure Still (k : Kernel) (i : Statement) : Prop where
  claiming : (i.data k).sh.astralClaiming = k.sh.astralClaiming
  log : ∃ new, (i.data k).sh.log = new ++ k.sh.log ∧ ∀ e ∈ new, Event.routine e = true
  frames : ∀ g ∈ i.frames, g.still = true

theorem Frame.still.attaches {f : Frame} (h : f.still = true) : f.attaches = false := by
  simp only [Frame.still, Bool.and_eq_true, Bool.not_eq_true'] at h
  exact h.1

theorem Frame.still.claims {f : Frame} (h : f.still = true) : f.claims = false := by
  simp only [Frame.still, Bool.and_eq_true, Bool.not_eq_true'] at h
  exact h.2

theorem Called.of_still {f : Frame} (h : f.still = true) (caller : Option Frame) :
    Called f caller :=
  fun hattaches => absurd hattaches (by simp [Frame.still.attaches h])

theorem Justified.of_still {k : Kernel} {t : Tid} {f : Frame} (h : f.still = true) :
    Justified P k t f := by
  cases f with
  | attach => exact absurd h Bool.false_ne_true
  | _ => trivial

theorem Still.does {k : Kernel} {t : Tid} {f : Frame} {i : Statement} (h : Still k i)
    (hf : f.still = true) : Does P k t f i := by
  -- no frame the statement leaves is in the claimed part
  have hframes : claimToken.holders i.frames = 0 :=
    List.countP_eq_zero.mpr fun g hg => by simp [claimToken, Frame.still.claims (h.frames g hg)]
  refine ⟨?_, fun _ g hg => .of_still (h.frames g hg), ?_, fun caller _ => ?_⟩
  · obtain ⟨new, hlog, hroutine⟩ := h.log
    refine ⟨new, hlog, fun e he => ?_⟩
    have := hroutine e he
    -- a still statement records what is left of a client, and no access to one
    cases e with
    | created | transfer | hwmon => exact absurd this Bool.false_ne_true
    | deleted | unregistered | passFailed => trivial
  · exact .keep h.claiming
      (hframes.trans (Token.holders_of_not_holds (Frame.still.claims hf)).symm)
  · have hcalled := fun g hg => Called.of_still (h.frames g hg)
    cases i with
    | call d callee f' =>
      exact ⟨hcalled callee List.mem_cons_self _,
        hcalled f' (List.mem_cons_of_mem _ List.mem_cons_self) _⟩
    | ret => trivial
    | step | acquire | release | await => exact hcalled _ List.mem_cons_self _

/-- A statement that leaves the record alone as well. -/
theorem Still.of_same {k : Kernel} {i : Statement}
    (hclaiming : (i.data k).sh.astralClaiming = k.sh.astralClaiming)
    (hlog : (i.data k).sh.log = k.sh.log) (hframes : ∀ g ∈ i.frames, g.still = true) :
    Still k i :=
  ⟨hclaiming, ⟨[], hlog, by simp⟩, hframes⟩

theorem busNotify_still {k k' : Kernel} {action : NotifyAction} {dev : BusDev} {f : Frame}
    (hclaiming : k'.sh.astralClaiming = k.sh.astralClaiming)
    (hlog : ∃ new, k'.sh.log = new ++ k.sh.log ∧ ∀ e ∈ new, Event.routine e = true)
    (hf : f.still = true) : Still k (busNotify k' action dev f) := by
  unfold busNotify
  split
  · exact ⟨hclaiming, hlog, List.forall_mem_cons.mpr ⟨rfl, List.forall_mem_singleton.mpr hf⟩⟩
  · exact ⟨hclaiming, hlog, List.forall_mem_singleton.mpr hf⟩

/-- A record with one routine event more. -/
theorem routine_cons (log : List Event) {e : Event} (h : Event.routine e = true) :
    ∃ new, e :: log = new ++ log ∧ ∀ e ∈ new, Event.routine e = true :=
  ⟨[e], rfl, List.forall_mem_singleton.mpr h⟩

theorem scheduleWork_record (sh : Shared) : sh.scheduleWork.log = sh.log ∧
    sh.scheduleWork.astralClaiming = sh.astralClaiming := by
  unfold Shared.scheduleWork
  split <;> exact ⟨rfl, rfl⟩

theorem astralBusNotify_still (k : Kernel) (pc : BusNotifyPc) :
    Still k (astralBusNotify P k pc) := by
  cases pc with
  | entry action dev =>
    cases action with
    | addDevice => cases dev <;> exact .of_same rfl rfl (List.forall_mem_singleton.mpr rfl)
    | delDevice | other => exact .of_same rfl rfl (List.forall_mem_singleton.mpr rfl)
  -- the counter is reset; neither the record nor the claim is touched
  | add =>
    rw [astralBusNotify]
    split <;> exact .of_same rfl rfl (List.forall_mem_singleton.mpr rfl)
  | rearm rearm =>
    obtain ⟨hlog, hclaiming⟩ := scheduleWork_record k.sh
    cases rearm with
    | true => exact .of_same hclaiming hlog (List.forall_mem_singleton.mpr rfl)
    | false => exact .of_same rfl rfl (List.forall_mem_singleton.mpr rfl)
  | del dev =>
    cases dev with
    -- whether or not the pointer is cleared
    | client client =>
      refine .of_same ?_ ?_ (List.forall_mem_singleton.mpr rfl)
      all_goals
        dsimp only [astralBusNotify, Instr.data, Shared.astralBusNotifyDel]
        split <;> rfl
    | adapter => exact .of_same rfl rfl (List.forall_mem_singleton.mpr rfl)
  | lockAdd | lockDel | unlockAdd | unlockDel =>
    exact .of_same rfl rfl (List.forall_mem_singleton.mpr rfl)
  | ret => exact .of_same rfl rfl (by simp [astralBusNotify, Instr.frames])

theorem astralAttached_still (k : Kernel) (pc : AttachedPc) : Still k (astralAttached k pc) := by
  cases pc with
  | lock | read | unlock => exact .of_same rfl rfl (List.forall_mem_singleton.mpr rfl)
  | ret => exact .of_same rfl rfl (by simp [astralAttached, Instr.frames])

theorem astralProbeWorker_still (k : Kernel) (pc : ProbeWorkerPc) :
    Still k (astralProbeWorker k pc) := by
  cases pc with
  | probe | attached =>
    exact .of_same rfl rfl (List.forall_mem_cons.mpr ⟨rfl, List.forall_mem_singleton.mpr rfl⟩)
  | test scan attached =>
    cases attached <;> exact .of_same rfl rfl (List.forall_mem_singleton.mpr rfl)
  | retry scan attempts report =>
    rw [astralProbeWorker]
    split
    · refine .of_same ((scheduleWork_record _).2.trans ?_) ((scheduleWork_record _).1.trans ?_)
        (List.forall_mem_singleton.mpr rfl)
      all_goals split <;> rfl
    · exact .of_same rfl rfl (List.forall_mem_singleton.mpr rfl)
  | lock | count | unlock => exact .of_same rfl rfl (List.forall_mem_singleton.mpr rfl)
  | ret => exact .of_same rfl rfl (by simp [astralProbeWorker, Instr.frames])

theorem astralInit_still (k : Kernel) (env : Env) (pc : InitPc) :
    Still k (astralInit P k env pc) := by
  cases pc with
  | start =>
    rw [astralInit]
    split
    · exact .of_same rfl rfl (List.forall_mem_singleton.mpr rfl)
    · split <;> exact .of_same rfl rfl (List.forall_mem_singleton.mpr rfl)
  | register =>
    rw [astralInit]
    split <;> exact .of_same rfl rfl (List.forall_mem_singleton.mpr rfl)
  | probe | attached =>
    exact .of_same rfl rfl (List.forall_mem_cons.mpr ⟨rfl, List.forall_mem_singleton.mpr rfl⟩)
  | test attached =>
    obtain ⟨hlog, hclaiming⟩ := scheduleWork_record k.sh
    cases attached with
    | true => exact .of_same rfl rfl (List.forall_mem_singleton.mpr rfl)
    | false => exact .of_same hclaiming hlog (List.forall_mem_singleton.mpr rfl)
  | ret code => cases code <;> exact .of_same rfl rfl (by simp [astralInit, Instr.frames])

theorem astralExit_still (s : Sys) (pc : ExitPc) : Still s.data (astralExit s pc) := by
  cases pc with
  | check =>
    rw [astralExit]
    split <;> exact .of_same rfl rfl (List.forall_mem_singleton.mpr rfl)
  | unregister client => exact busNotify_still rfl (routine_cons _ rfl) rfl
  | unregisterNotifier | cancel | wait | lock | clear | unlock =>
    exact .of_same rfl rfl (List.forall_mem_singleton.mpr rfl)
  | ret => exact .of_same rfl rfl (by simp [astralExit, Instr.frames])

theorem i2cDelAdapter_still (k : Kernel) (adap : I2cAdapter) : Still k (i2cDelAdapter k adap) := by
  unfold i2cDelAdapter
  split
  · exact busNotify_still rfl (routine_cons _ rfl) rfl
  · exact busNotify_still rfl ⟨[], rfl, by simp⟩ rfl

/-! ### The attach -/

theorem AttachPc.Justified.mono {pc : AttachPc} {log log' : List Event} (h : pc.Justified P log)
    (hlog : log ⊆ log') : pc.Justified P log' where
  gate := h.gate
  client c hc := hlog (h.client c hc)
  good c hc := (h.good c hc).imp fun _ hgood => ⟨hgood.1, hlog hgood.2⟩

/-- A position that goes on with the client of the last. -/
theorem AttachPc.Justified.goOn {pc pc' : AttachPc} {log log' : List Event}
    (h : pc.Justified P log) (hlog : log ⊆ log') (hclient : pc'.client = pc.client)
    (hcreate : ∀ adap, pc' ≠ .create adap) (hregister : ∀ c, pc' ≠ .register c) :
    pc'.Justified P log' where
  gate adap hpc := absurd hpc (hcreate adap)
  client c hc := hlog (h.client c (hclient ▸ hc))
  good c hpc := absurd hpc (hregister c)

/-- The attach has come out without a client. -/
theorem AttachPc.justified_ret_none (log : List Event) : (AttachPc.ret none).Justified P log where
  gate adap hpc := absurd hpc (by simp)
  client c hc := absurd hc (by simp [AttachPc.client])
  good c hpc := absurd hpc (by simp)

/-- A statement of the attach, which may call the notifier back. -/
theorem Does.of_attach {k : Kernel} {t : Tid} {pc : AttachPc} {i : Statement}
    (hclaiming : (i.data k).sh.astralClaiming = k.sh.astralClaiming)
    (hnews : ∃ new, (i.data k).sh.log = new ++ k.sh.log ∧ ∀ e ∈ new, Event.Of (.attach pc) e)
    (hframes : ∀ g ∈ i.frames, g.still = true ∨ ∃ pc', g = .attach pc' ∧
      (pc.Justified P k.sh.log → pc'.Justified P (i.data k).sh.log))
    (hcallee : ∀ d callee f, i = .call d callee f → callee.still = true) :
    Does P k t (.attach pc) i := by
  refine ⟨hnews, fun hjust g hg => ?_, ?_, fun caller hcaller => ?_⟩
  · rcases hframes g hg with hstill | ⟨pc', rfl, hpc'⟩
    exacts [.of_still hstill, hpc' hjust]
  -- the claim is the caller's, and `astral_attach` neither takes it nor drops it
  · have hnone : claimToken.holders i.frames = 0 := List.countP_eq_zero.mpr fun g hg => by
      rcases hframes g hg with hstill | ⟨pc', rfl, -⟩
      · simp [claimToken, Frame.still.claims hstill]
      · simp [claimToken, Frame.claims]
    exact .keep hclaiming hnone
  · have hclaims : caller.any Frame.claims = true := hcaller rfl
    cases i with
    | call d callee f => exact ⟨.of_still (hcallee d callee f rfl) _, fun _ => hclaims⟩
    | ret => trivial
    | step | acquire | release | await => exact fun _ => hclaims

/-- A statement of the attach that notifies of its client. -/
theorem Does.of_attach_notify {k k' : Kernel} {t : Tid} {pc pc' : AttachPc} {e : Event}
    {action : NotifyAction} {dev : BusDev}
    (hclaiming : k'.sh.astralClaiming = k.sh.astralClaiming) (hlog : k'.sh.log = e :: k.sh.log)
    (he : Event.Of (.attach pc) e)
    (hpc' : pc.Justified P k.sh.log → pc'.Justified P (e :: k.sh.log)) :
    Does P k t (.attach pc) (busNotify k' action dev (.attach pc')) := by
  unfold busNotify
  split
  · refine .of_attach hclaiming ⟨[e], hlog, List.forall_mem_singleton.mpr he⟩ ?_ ?_
    · exact List.forall_mem_cons.mpr ⟨Or.inl rfl, List.forall_mem_singleton.mpr
        (Or.inr ⟨pc', rfl, fun h => hlog.symm ▸ hpc' h⟩)⟩
    · rintro d callee f ⟨⟩
      rfl
  · refine .of_attach hclaiming ⟨[e], hlog, List.forall_mem_singleton.mpr he⟩ ?_ (by simp)
    exact List.forall_mem_singleton.mpr (Or.inr ⟨pc', rfl, fun h => hlog.symm ▸ hpc' h⟩)

/-- A statement of the attach that leaves the record and the claim alone. -/
theorem Does.of_attach_same {k : Kernel} {t : Tid} {pc pc' : AttachPc} {i : Statement}
    (hclaiming : (i.data k).sh.astralClaiming = k.sh.astralClaiming)
    (hlog : (i.data k).sh.log = k.sh.log) (hframes : i.frames = [.attach pc'])
    (hpc' : pc.Justified P k.sh.log → pc'.Justified P k.sh.log) :
    Does P k t (.attach pc) i := by
  refine .of_attach hclaiming ⟨[], hlog, by simp⟩ ?_ ?_
  · rw [hframes]
    exact List.forall_mem_singleton.mpr (Or.inr ⟨pc', rfl, fun h => hlog.symm ▸ hpc' h⟩)
  · rintro d callee f rfl
    exact absurd hframes (by simp [Instr.frames])

theorem astralAttach_does (k : Kernel) (env : Env) (t : Tid) (pc : AttachPc) :
    Does P k t (.attach pc) (astralAttach P k env pc) := by
  have hgo {pc' : AttachPc} (hclient : pc'.client = pc.client)
      (hcreate : ∀ adap, pc' ≠ .create adap) (hregister : ∀ c, pc' ≠ .register c)
      (h : pc.Justified P k.sh.log) : pc'.Justified P k.sh.log :=
    h.goOn (fun _ he => he) hclient hcreate hregister
  cases pc with
  | create adap =>
    rw [astralAttach]
    split
    next sh client hnew =>
      -- the client is on the adapter that has passed the gate
      unfold Shared.i2cNewClientDevice at hnew
      split at hnew
      · exact absurd hnew (by simp)
      · obtain ⟨rfl, rfl⟩ := Prod.mk.inj (Option.some.inj hnew)
        refine .of_attach_notify rfl rfl rfl fun h => ⟨by simp, ?_, by simp⟩
        rintro c ⟨⟩
        exact List.mem_cons_self
    next =>
      exact .of_attach_same rfl rfl rfl fun _ => AttachPc.justified_ret_none _
  -- on success and on failure the client goes on with the thread
  | alloc client =>
    rw [astralAttach]
    split
    · exact .of_attach_same rfl rfl rfl (hgo rfl (by simp) (by simp))
    · exact .of_attach_same rfl rfl rfl (hgo rfl (by simp) (by simp))
  | refresh client =>
    -- a good transfer is on record before the registration it leads to
    obtain ⟨htransfer, ⟨hret, hgood⟩ | ⟨⟨e, hret⟩, -⟩⟩ := astralRefresh_zeroed P.ttl env.io
    · rw [astralAttach]
      simp only [htransfer, hret]
      refine .of_attach rfl ⟨[.transfer client env.io.transfer], rfl,
        List.forall_mem_singleton.mpr rfl⟩ (List.forall_mem_singleton.mpr (Or.inr
          ⟨_, rfl, fun h => ⟨by simp, fun c hc => ?_, fun c hc => ?_⟩⟩)) (by simp)
      · exact List.mem_cons_of_mem _ (h.client c hc)
      · cases hc
        exact ⟨_, hgood, List.mem_cons_self⟩
    · rw [astralAttach]
      simp only [htransfer, hret]
      exact .of_attach rfl ⟨[.transfer client env.io.transfer], rfl,
        List.forall_mem_singleton.mpr rfl⟩ (List.forall_mem_singleton.mpr (Or.inr
          ⟨_, rfl, fun h => h.goOn (List.subset_cons_self _ _) rfl (by simp) (by simp)⟩)) (by simp)
  | register client =>
    rw [astralAttach]
    split
    · exact .of_attach_same rfl rfl rfl (hgo rfl (by simp) (by simp))
    · exact .of_attach rfl ⟨[.hwmon client], rfl, List.forall_mem_singleton.mpr rfl⟩
        (List.forall_mem_singleton.mpr (Or.inr
          ⟨_, rfl, fun h => h.goOn (List.subset_cons_self _ _) rfl (by simp) (by simp)⟩)) (by simp)
  -- whether or not the notifier has cleared the pointer
  | unpublish client =>
    refine .of_attach_same ?_ ?_ rfl (hgo rfl (by simp) (by simp))
    all_goals
      dsimp only [astralAttach, Instr.data]
      split <;> rfl
  | unregister client =>
    exact .of_attach_notify rfl rfl trivial fun _ => AttachPc.justified_ret_none _
  | lock client | publish client | unlock client | lockErr client | unlockErr client =>
    exact .of_attach_same rfl rfl rfl (hgo rfl (by simp) (by simp))
  | ret client =>
    exact .of_attach rfl ⟨[], rfl, by simp⟩ (by simp [astralAttach, Instr.frames])
      (by simp [astralAttach])

/-! ### The pass -/

/-- A statement of the pass that calls nobody and leaves the record alone. -/
theorem Does.of_probe {k : Kernel} {t : Tid} {scan scan' : AstralScan} {pc pc' : ProbeOncePc}
    {i : Statement} (hlog : (i.data k).sh.log = k.sh.log)
    (hframes : i.frames = [.probeOnce scan' pc'])
    (hclaim : claimToken.Obeys k (.probeOnce scan pc) i) :
    Does P k t (.probeOnce scan pc) i := by
  refine ⟨⟨[], hlog, by simp⟩, fun _ g hg => ?_, hclaim, fun caller _ => ?_⟩
  · rw [hframes] at hg
    obtain rfl := List.mem_singleton.mp hg
    trivial
  · have hvacuous : ∀ caller, Called (.probeOnce scan' pc') caller :=
      fun _ h => absurd h Bool.false_ne_true
    cases i with
    | call => exact absurd hframes (by simp [Instr.frames])
    | ret => trivial
    | step | acquire | release | await =>
      obtain rfl := List.singleton_inj.mp hframes
      exact hvacuous caller

/-- One that leaves the claim alone as well. -/
theorem Does.of_probe_same {k : Kernel} {t : Tid} {scan scan' : AstralScan} {pc pc' : ProbeOncePc}
    {i : Statement} (hlog : (i.data k).sh.log = k.sh.log)
    (hclaiming : (i.data k).sh.astralClaiming = k.sh.astralClaiming)
    (hframes : i.frames = [.probeOnce scan' pc']) (hclaims : pc'.claims = pc.claims) :
    Does P k t (.probeOnce scan pc) i :=
  .of_probe hlog hframes (.keep hclaiming (hframes ▸ Token.holders_congr hclaims))

theorem astralProbeOnce_does (k : Kernel) (env : Env) (t : Tid) (scan : AstralScan)
    (pc : ProbeOncePc) : Does P k t (.probeOnce scan pc) (astralProbeOnce P k env scan pc) := by
  cases pc with
  | check =>
    rw [astralProbeOnce]
    split
    next => exact .of_probe_same rfl rfl rfl rfl
    next hfree =>
      -- raised where it is down
      simp only [Bool.or_eq_true, not_or, Bool.not_eq_true] at hfree
      exact .of_probe rfl rfl (.raise hfree.2 rfl rfl rfl)
  | get adapterId =>
    rw [astralProbeOnce]
    split <;> exact .of_probe_same rfl rfl rfl rfl
  | gate adap =>
    rw [astralProbeOnce]
    split
    next hgate =>
      -- the attach is entered behind the gate, and above a frame that holds the claim
      rw [Bool.and_eq_true] at hgate
      refine ⟨⟨[], rfl, by simp⟩, fun _ => ?_, .keep rfl rfl, fun caller _ => ⟨fun _ => rfl, ?_⟩⟩
      · refine List.forall_mem_cons.mpr ⟨⟨?_, ?_, ?_⟩, List.forall_mem_singleton.mpr trivial⟩
        · rintro _ ⟨⟩
          exact hgate
        · simp [AttachPc.client]
        · simp
      · exact fun h => absurd h Bool.false_ne_true
    next => exact .of_probe_same rfl rfl rfl rfl
  | settle adap client =>
    refine ⟨?_, fun _ => List.forall_mem_singleton.mpr trivial, .lower rfl rfl rfl,
      fun caller _ h => absurd h Bool.false_ne_true⟩
    cases client with
    | none => exact ⟨[.passFailed], rfl, List.forall_mem_singleton.mpr trivial⟩
    | some client => exact ⟨[], rfl, by simp⟩
  | lock | unlockBusy | unlockClaim | walk | lockSettle | unlockSettle | put =>
    exact .of_probe_same rfl rfl rfl rfl
  | ret =>
    exact ⟨⟨[], rfl, by simp⟩, fun _ => by simp [astralProbeOnce, Instr.frames], .keep rfl rfl,
      fun _ _ => trivial⟩

/-! ### Every statement -/

/-- **What a statement does to the record and to the claim.** -/
theorem instr_does (s : Sys) (env : Env) (t : Tid) (f : Frame) :
    Does P s.data t f (instr P s env f) := by
  cases f with
  | init pc => exact (astralInit_still s.data env pc).does rfl
  | worker pc => exact (astralProbeWorker_still s.data pc).does rfl
  | exit pc => exact (astralExit_still s pc).does rfl
  | probeOnce scan pc => exact astralProbeOnce_does s.data env t scan pc
  | attach pc => exact astralAttach_does s.data env t pc
  | attached pc => exact (astralAttached_still s.data pc).does rfl
  | notify pc => exact (astralBusNotify_still s.data pc).does rfl
  | addAdapter adap => exact (busNotify_still rfl ⟨[], rfl, by simp⟩ rfl).does rfl
  | delAdapter adap => exact (i2cDelAdapter_still s.data adap).does rfl
  | coreRet =>
    exact (Still.of_same rfl rfl (by simp [instr, Instr.frames])).does rfl

/-- What starts neither attaches nor holds the claim, and leaves the record alone. -/
theorem start_still {s : Sys} {a : Start} {k : Kernel} {t : Tid} {f : Frame}
    (h : start s a = some (k, t, f)) : k.sh.astralClaiming = s.data.sh.astralClaiming ∧
      k.sh.log = s.data.sh.log ∧ f.still = true := by
  cases a with
  | init | worker | exit | delAdapter | foreign =>
    obtain ⟨-, heq⟩ := Option.ite_none_right_eq_some.mp h
    simp only [Option.some.injEq, Prod.mk.injEq] at heq
    obtain ⟨rfl, -, rfl⟩ := heq
    exact ⟨rfl, rfl, rfl⟩
  | addAdapter =>
    obtain ⟨-, heq⟩ := Option.ite_none_left_eq_some.mp h
    simp only [Option.some.injEq, Prod.mk.injEq] at heq
    obtain ⟨rfl, -, rfl⟩ := heq
    exact ⟨rfl, rfl, rfl⟩

theorem resume_same (f : Frame) (v : Value) :
    (resume f v).claims = f.claims ∧ (resume f v).attaches = f.attaches := by
  cases f with
  | init pc => cases pc <;> cases v <;> exact ⟨rfl, rfl⟩
  | worker pc => cases pc <;> cases v <;> exact ⟨rfl, rfl⟩
  | probeOnce scan pc => cases pc <;> cases v <;> exact ⟨rfl, rfl⟩
  | _ => exact ⟨rfl, rfl⟩

/-! ### One pass at a time -/

theorem held_reachable {s : Sys} (h : Reachable (threads P) s) : s.Held claimToken := by
  have hresume : ∀ f v, claimToken.holds ((code P).resume f v) = claimToken.holds f :=
    fun f v => (resume_same f v).1
  refine Code.held (fun s hs => ?_) (fun s _ t env f _ => (instr_does s env t f).claim)
    hresume (fun s a k t f hstart => ?_) h
  · rw [hs]
    exact Or.inl ⟨rfl, fun _ => rfl⟩
  · obtain ⟨hclaiming, -, hstill⟩ := start_still hstart
    exact ⟨hclaiming, Frame.still.claims hstill⟩

theorem called_reachable {s : Sys} (h : Reachable (threads P) s) (t : Tid) :
    Stacked Called (s.stack t) := by
  refine Code.stacked_reachable (fun s hs t => ?_) (fun s env f caller hf => ?_)
    (fun f v caller hf => ?_) (fun s a k t f hstart => ?_) h t
  · rw [hs]
    trivial
  · exact (instr_does (P := P) s env .init f).callers caller hf
  · exact fun hattaches => hf ((resume_same f v).2 ▸ hattaches)
  · exact .of_still (start_still hstart).2.2 none

/-- In a stack there are no more attaches than claims. -/
theorem attaches_le_holders : ∀ {frames : List Frame}, Stacked Called frames →
    frames.countP Frame.attaches ≤ claimToken.holders frames
  | [], _ => le_rfl
  | [f], ⟨hf, _⟩ => by
    have hnot : f.attaches = false := by
      by_contra hattaches
      exact absurd (hf (Bool.eq_true_of_not_eq_false hattaches)) (by simp)
    simp [hnot]
  | f :: g :: rest, ⟨hf, hrest⟩ => by
    by_cases hattaches : f.attaches = true
    · -- the caller of the attach holds the claim, and attaches nothing itself
      have hclaims : g.claims = true := hf hattaches
      have hg : g.attaches = false := by
        cases g with
        | probeOnce => rfl
        | _ => exact absurd hclaims Bool.false_ne_true
      have ih := attaches_le_holders hrest.2
      rw [Token.holders_cons, Token.holders_cons claimToken g,
        Token.holders_of_holds (show claimToken.holds g = true from hclaims),
        List.countP_cons, List.countP_cons, if_pos hattaches, if_neg (by simp [hg])]
      omega
    · have ih := attaches_le_holders hrest
      rw [Token.holders_cons, List.countP_cons, if_neg hattaches]
      omega

/-- **One pass at a time.** In every interleaving of the statements of the module, its
callbacks and all other threads, `astral_claiming` is up exactly while some thread is in the
claimed part of `astral_probe_once`; no two threads are in it or in `astral_attach`, and no
thread is twice. -/
theorem astral_oneAttach {s : Sys} (h : Reachable (threads P) s) :
    (s.data.sh.astralClaiming = true ↔ ∃ t, ∃ f ∈ s.stack t, f.claims = true) ∧
      (∀ t t' f f', f ∈ s.stack t → f' ∈ s.stack t' → f.claims = true ∨ f.attaches = true →
        f'.claims = true ∨ f'.attaches = true → t = t') ∧
      ∀ t, (s.stack t).countP Frame.claims ≤ 1 ∧ (s.stack t).countP Frame.attaches ≤ 1 := by
  have hheld := held_reachable h
  -- a thread in `astral_attach` is in the claimed part too, one frame down
  have hclaims : ∀ t f, f ∈ s.stack t → f.claims = true ∨ f.attaches = true →
      ∃ g ∈ s.stack t, g.claims = true := by
    rintro t f hf (hclaims | hattaches)
    · exact ⟨f, hf, hclaims⟩
    · have hle := attaches_le_holders (called_reachable h t)
      have hpos : 0 < (s.stack t).countP Frame.attaches :=
        List.countP_pos_iff.mpr ⟨f, hf, hattaches⟩
      exact List.countP_pos_iff.mp (hpos.trans_le hle)
  -- the token is with nobody, or with one thread that has it once
  have hone : ∀ t, claimToken.holders (s.stack t) ≤ 1 := by
    intro t
    rcases hheld with ⟨-, hnone⟩ | ⟨-, t₀, hone, hothers⟩
    · exact (hnone t).trans_le (Nat.zero_le 1)
    · by_cases ht : t = t₀
      · exact ht ▸ hone.le
      · exact (hothers t ht).trans_le (Nat.zero_le 1)
  refine ⟨hheld.raised_iff, fun t t' f f' hf hf' hfor hfor' => ?_, fun t => ⟨hone t, ?_⟩⟩
  · obtain ⟨g, hg, hgclaims⟩ := hclaims t f hf hfor
    obtain ⟨g', hg', hgclaims'⟩ := hclaims t' f' hf' hfor'
    exact hheld.unique hg hg' hgclaims hgclaims'
  · exact (attaches_le_holders (called_reachable h t)).trans (hone t)

/-- While the attach of the load is being called back the claim is up, nobody owns the lock,
and every other thread stays out. -/
theorem astral_oneAttach_calledBack :
    ∃ s, Reachable (threads oneCard) s ∧ calledBack s = true ∧ s.lock = none ∧
      s.data.sh.astralClaiming = true ∧
      ∀ t, t ≠ .init → ∀ f ∈ s.stack t, f.claims = false ∧ f.attaches = false := by
  have hrun : (System.exec (code oneCard).next boot failingLoad).any (fun s =>
      decide (calledBack s = true ∧ s.lock = none ∧ s.data.sh.astralClaiming = true)) = true := by
    decide +kernel
  obtain ⟨s, hexec, hback, hlock, hclaiming⟩ := System.any_decide_iff.mp hrun
  have hreach : Reachable (threads oneCard) s := System.exec_reachable rfl hexec
  obtain ⟨-, hone, -⟩ := astral_oneAttach hreach
  refine ⟨s, hreach, hback, hlock, hclaiming, fun t ht f hf => ?_⟩
  unfold calledBack at hback
  split at hback
  next client pc _ _ _ hstack =>
    have hattach : Frame.attach pc ∈ s.stack .init := by simp [hstack]
    have hout : ¬(f.claims = true ∨ f.attaches = true) := fun hin =>
      ht (hone t .init f (.attach pc) hf hattach hin (Or.inr rfl))
    simpa [not_or] using hout
  next => exact absurd hback Bool.false_ne_true

/-! ### None off the card -/

theorem justified_reachable {s : Sys} (h : Reachable (threads P) s) : s.All (Justified P) := by
  -- what justifies a frame is in the record, and stays in one that grows
  have hmono : ∀ {k k' : Kernel} {t : Tid} {f : Frame}, k.sh.log ⊆ k'.sh.log →
      Justified P k t f → Justified P k' t f := by
    intro k k' t f hlog hf
    cases f with
    | attach pc => exact AttachPc.Justified.mono hf hlog
    | _ => trivial
  -- at the start, when a thread starts, at a statement, and at a return
  refine Code.all_reachable (fun s hs => ?_) (fun s a k t f hall hstart => ?_)
    (fun s t env f hall hf => ?_) (fun k t f v hf => ?_) h
  · rw [hs]
    exact fun t f hf => absurd hf (by simp [boot])
  · obtain ⟨-, hlog, hstill⟩ := start_still hstart
    exact ⟨fun t' g hg => hmono (fun _ he => hlog ▸ he) (hall t' g hg), .of_still hstill⟩
  · have hdoes := instr_does (P := P) s env t f
    obtain ⟨new, hlog, -⟩ := hdoes.news
    refine ⟨fun t' g hg => hmono (fun e he => ?_) (hall t' g hg), hdoes.frames (hall t f hf)⟩
    exact hlog ▸ List.mem_append_right new he
  · cases f with
    | init pc => cases pc <;> cases v <;> trivial
    | worker pc => cases pc <;> cases v <;> trivial
    | probeOnce scan pc => cases pc <;> cases v <;> trivial
    | _ => exact hf

/-- The record of a machine on which the driver keeps to the card. -/
structure Recorded (P : Setup) (log : List Event) : Prop where
  created : ∀ c, .created c ∈ log → Recognised P c.adapter
  transfer : ∀ c result, .transfer c result ∈ log → .created c ∈ log
  readFirst : ReadFirst log

theorem Recorded.append {log : List Event} {f : Frame} {new : List Event}
    (h : Recorded P log) (hf : ∀ pc, f = .attach pc → pc.Justified P log)
    (hnew : ∀ e ∈ new, Event.Of f e) : Recorded P (new ++ log) := by
  refine ⟨fun c hc => ?_, fun c result hc => ?_, ?_⟩
  · rcases List.mem_append.mp hc with hc | hc
    · obtain ⟨hmatch, hselected⟩ := (hf _ (hnew _ hc)).gate _ rfl
      exact recognised_of_gate hmatch hselected
    · exact h.created c hc
  · refine List.mem_append_right new ?_
    rcases List.mem_append.mp hc with hc | hc
    · exact (hf _ (hnew _ hc)).client c rfl
    · exact h.transfer c result hc
  · -- on the new events, oldest first
    induction new with
    | nil => exact h.readFirst
    | cons e new ih =>
      refine (ih fun e' he' => hnew e' (List.mem_cons_of_mem e he')).cons ?_
      rintro c rfl
      obtain ⟨result, hgood, hmem⟩ := (hf _ (hnew _ List.mem_cons_self)).good c rfl
      exact ⟨result, hgood, List.mem_append_right new hmem⟩

/-- **No traffic off the card, statement by statement.** In every interleaving of the
statements, with adapters and clients deleted one by one and the notifier called back in
between, each client the driver creates is on a recognised adapter, each transfer is on such a
client, and every hwmon device is registered after a good transfer on its client. -/
theorem astral_threads_recognisedCardOnly {s : Sys} (h : Reachable (threads P) s) :
    (∀ c, .created c ∈ s.data.sh.log → Recognised P c.adapter) ∧
      (∀ c result, .transfer c result ∈ s.data.sh.log →
        .created c ∈ s.data.sh.log ∧ Recognised P c.adapter) ∧
      ReadFirst s.data.sh.log := by
  have hrecorded : Recorded P s.data.sh.log := by
    refine Code.data_reachable (G := fun k : Kernel => Recorded P k.sh.log) (fun s hs => ?_)
      (fun s a k t f hk hstart => ?_) (fun s hs t env f hf hk => ?_) h
    · rw [hs]
      exact ⟨by simp [boot, St.boot], by simp [boot, St.boot], by simp [ReadFirst, boot, St.boot]⟩
    · exact (start_still hstart).2.1 ▸ hk
    · obtain ⟨new, hlog, hnew⟩ := (instr_does (P := P) s env t f).news
      have hjust := justified_reachable hs t f hf
      have happend := hk.append (fun pc hpc => by rw [hpc] at hjust; exact hjust) hnew
      exact hlog ▸ happend
  refine ⟨hrecorded.created, fun c result hc => ?_, hrecorded.readFirst⟩
  exact ⟨hrecorded.transfer c result hc, hrecorded.created c (hrecorded.transfer c result hc)⟩

/-- The load attaches, and between its first transfer and the registration another thread
deletes the adapter: the core has taken the client, and calls the notifier back. -/
def deletedBetween : List (Act Tid Env Start) :=
  [.start (.addAdapter 0 1 sensorName (some (.pci ⟨0x10de, 0x1043, 0x89e3⟩))),
    .run (.other 0) .idle, .run (.other 0) .idle, .start .init]
    ++ List.replicate 17 (.run .init .idle) ++ [.start (.delAdapter 1 (sensorAdapter 0 1))]
    ++ List.replicate 4 (.run (.other 1) .idle) ++ [.run .init .idle]

/-- The device is on record after the deletion of its client, and after a good transfer. -/
theorem astral_threads_recognisedCardOnly_deletedBetween :
    ∃ s, Reachable (threads oneCard) s ∧
      [.hwmon ⟨1, sensorAdapter 0 1, 0x2b⟩, .deleted ⟨1, sensorAdapter 0 1, 0x2b⟩]
        <+: s.data.sh.log ∧
      Recognised oneCard (sensorAdapter 0 1) ∧
      ∃ result, result.Good ∧ .transfer ⟨1, sensorAdapter 0 1, 0x2b⟩ result ∈ s.data.sh.log := by
  have hrun : (System.exec (code oneCard).next boot deletedBetween).any (fun s =>
      decide ([.hwmon ⟨1, sensorAdapter 0 1, 0x2b⟩, .deleted ⟨1, sensorAdapter 0 1, 0x2b⟩]
        <+: s.data.sh.log)) = true := by
    decide +kernel
  obtain ⟨s, hexec, older, hlog⟩ := System.any_decide_iff.mp hrun
  have hreach : Reachable (threads oneCard) s := System.exec_reachable rfl hexec
  obtain ⟨-, htransfer, hfirst⟩ := astral_threads_recognisedCardOnly hreach
  have hsuffix : .hwmon ⟨1, sensorAdapter 0 1, 0x2b⟩ ::
      .deleted ⟨1, sensorAdapter 0 1, 0x2b⟩ :: older <:+ s.data.sh.log :=
    ⟨[], hlog⟩
  obtain ⟨result, hgood, hmem⟩ := hfirst _ _ hsuffix
  have hmem := hsuffix.subset (List.mem_cons_of_mem _ hmem)
  exact ⟨s, hreach, ⟨older, hlog⟩, (htransfer _ _ hmem).2, result, hgood, hmem⟩

end Astral.Threads
