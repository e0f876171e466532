import AstralHwmon.Driver.Threads

/-!
# `astral_lock` is never taken twice, nor held across a wait

The lock discipline of the module. `Frame.holds` are the positions between taking and
dropping `astral_lock`, and every statement of the driver keeps to them: calls and
callbacks are made outside, with one exception. `astral_exit` unregisters the client
with the lock held. That is in order because by then the notifier is off the chain, and
the driver core calls nobody back.

`Placed` says so: while a frame of `astral_exit` is past its first statement, there is
no notifier. Only `astral_init` puts it on the chain, and the two do not overlap. What
every other function does to this is nothing (`Plain`), so that it is a matter of those
two.

The discipline then gives the rest: `astral_noSelfDeadlock`, and that whoever holds the
lock can always go on (`astral_lockOwner_goesOn`).
-/

open Transition Monitor

namespace Astral.Threads

variable {P : Setup}

/-! ### The positions at which the lock is held -/

/-- `astral_bus_notify` holds `astral_lock`. -/
def BusNotifyPc.holds : BusNotifyPc → Bool
  | .add | .unlockAdd _ | .del _ | .unlockDel => true
  | _ => false

/-- `astral_attached` holds `astral_lock`. -/
def AttachedPc.holds : AttachedPc → Bool
  | .read | .unlock _ => true
  | _ => false

/-- `astral_attach` holds `astral_lock`, to publish the client or to take it back. -/
def AttachPc.holds : AttachPc → Bool
  | .publish _ | .unlock _ | .unpublish _ | .unlockErr _ => true
  | _ => false

/-- `astral_probe_once` holds `astral_lock`, to raise the claim or to settle it. -/
def ProbeOncePc.holds : ProbeOncePc → Bool
  | .check | .unlockBusy | .unlockClaim | .settle _ _ | .unlockSettle _ => true
  | _ => false

/-- `astral_probe_worker` holds `astral_lock`, to read the counter. -/
def ProbeWorkerPc.holds : ProbeWorkerPc → Bool
  | .count _ | .unlock _ _ _ => true
  | _ => false

/-- `astral_exit` holds `astral_lock`, all through the release of the client. -/
def ExitPc.holds : ExitPc → Bool
  | .check | .unregister _ | .clear | .unlock => true
  | _ => false

/-- A frame is between taking and dropping `astral_lock`. -/
def Frame.holds : Frame → Bool
  | .worker pc => pc.holds
  | .exit pc => pc.holds
  | .probeOnce _ pc => pc.holds
  | .attach pc => pc.holds
  | .attached pc => pc.holds
  | .notify pc => pc.holds
  | .init _ | .addAdapter _ | .delAdapter _ | .coreRet => false

/-! ### What keeps the notifier away from `astral_exit` -/

/-- `astral_exit` has taken the notifier off the chain. -/
def ExitPc.deaf : ExitPc → Bool
  | .unregisterNotifier => false
  | _ => true

/-- A frame is where the module's life and the notifier chain allow it. -/
def Placed (k : Kernel) (t : Tid) : Frame → Prop
  | .init _ => t = .init ∧ k.modState ≠ .going
  | .exit pc => k.modState = .going ∧ (pc.deaf = true → k.sh.notifier = false)
  | _ => True

/-- A frame of any other function than `astral_init` and `astral_exit`. -/
def Frame.plain : Frame → Bool
  | .init _ | .exit _ => false
  | _ => true

/-- The module's life and the notifier chain are left alone. -/
def Kernel.Steady (k k' : Kernel) : Prop :=
  k'.modState = k.modState ∧ k'.sh.notifier = k.sh.notifier

/-- A statement leaves them alone, and enters plain functions only. -/
def Plain (k : Kernel) (i : Statement) : Prop :=
  k.Steady (i.data k) ∧ ∀ f ∈ i.frames, f.plain = true

theorem Placed.of_plain {k : Kernel} {t : Tid} {f : Frame} (h : f.plain = true) :
    Placed k t f := by
  cases f with
  | init | exit => exact absurd h Bool.false_ne_true
  | _ => trivial

theorem Placed.steady {k k' : Kernel} {t : Tid} {f : Frame} (h : Placed k t f)
    (hk : k.Steady k') : Placed k' t f := by
  obtain ⟨hmod, hnotifier⟩ := hk
  cases f with
  | init pc => exact ⟨h.1, hmod ▸ h.2⟩
  | exit pc => exact ⟨hmod ▸ h.1, fun hdeaf => hnotifier.trans (h.2 hdeaf)⟩
  | _ => trivial

/-! ### The functions, one by one -/

/-- A notification in a place at which the lock is not held. -/
theorem busNotify_obeys {k : Kernel} {action : NotifyAction} {dev : BusDev} {f f' : Frame}
    (hf : f.holds = false) (hf' : f'.holds = false) :
    (busNotify k action dev f').Obeys Frame.holds f := by
  unfold busNotify
  split
  · exact ⟨hf, rfl, hf'⟩
  · exact hf'.trans hf.symm

/-- Without the notifier, a notification is nothing. -/
theorem busNotify_deaf {k : Kernel} {action : NotifyAction} {dev : BusDev} {f : Frame}
    (h : k.sh.notifier = false) : busNotify k action dev f = .step k f := by
  simp [busNotify, h]

theorem busNotify_plain {k k' : Kernel} {action : NotifyAction} {dev : BusDev} {f : Frame}
    (hk : k.Steady k') (hf : f.plain = true) : Plain k (busNotify k' action dev f) := by
  unfold busNotify
  split
  · exact ⟨hk, List.forall_mem_cons.mpr ⟨rfl, List.forall_mem_singleton.mpr hf⟩⟩
  · exact ⟨hk, List.forall_mem_singleton.mpr hf⟩

theorem astralBusNotify_obeys (k : Kernel) (pc : BusNotifyPc) :
    (astralBusNotify P k pc).Obeys Frame.holds (.notify pc) := by
  cases pc with
  | entry action dev =>
    cases action with
    | addDevice =>
      cases dev with
      | client _ => rfl
      | adapter adap =>
        -- either way the lock is not held yet
        rw [astralBusNotify]
        split <;> rfl
    | delDevice | other => rfl
  | add =>
    rw [astralBusNotify]
    split <;> rfl
  | del dev => cases dev <;> rfl
  | rearm | ret => rfl
  | lockAdd | unlockAdd | lockDel | unlockDel => exact ⟨rfl, rfl⟩

theorem astralAttached_obeys (k : Kernel) (pc : AttachedPc) :
    (astralAttached k pc).Obeys Frame.holds (.attached pc) := by
  cases pc with
  | lock | unlock => exact ⟨rfl, rfl⟩
  | read | ret => rfl

theorem astralAttach_obeys (k : Kernel) (env : Env) (pc : AttachPc) :
    (astralAttach P k env pc).Obeys Frame.holds (.attach pc) := by
  cases pc with
  -- the calls into the core, which call back with the lock free
  | create adap =>
    rw [astralAttach]
    split
    · exact busNotify_obeys rfl rfl
    · rfl
  | alloc =>
    rw [astralAttach]
    split <;> rfl
  | refresh =>
    rw [astralAttach]
    cases (astralRefresh P.ttl .zeroed env.io).ret <;> rfl
  | register =>
    rw [astralAttach]
    split <;> rfl
  | unregister => exact busNotify_obeys rfl rfl
  -- the lock and unlock statements take it and drop it as the positions say
  | lock | unlock | lockErr | unlockErr => exact ⟨rfl, rfl⟩
  | publish | unpublish | ret => rfl

theorem astralProbeOnce_obeys (k : Kernel) (env : Env) (scan : AstralScan) (pc : ProbeOncePc) :
    (astralProbeOnce P k env scan pc).Obeys Frame.holds (.probeOnce scan pc) := by
  cases pc with
  | check =>
    rw [astralProbeOnce]
    split <;> rfl
  | get adapterId =>
    rw [astralProbeOnce]
    split <;> rfl
  | gate adap =>
    rw [astralProbeOnce]
    split
    · exact ⟨rfl, rfl, rfl⟩
    · rfl
  | lock | unlockBusy | unlockClaim | lockSettle | unlockSettle => exact ⟨rfl, rfl⟩
  | walk | settle | put | ret => rfl

theorem astralProbeWorker_obeys (k : Kernel) (pc : ProbeWorkerPc) :
    (astralProbeWorker k pc).Obeys Frame.holds (.worker pc) := by
  cases pc with
  | probe | attached => exact ⟨rfl, rfl, rfl⟩
  | test scan attached => cases attached <;> rfl
  | retry scan attempts report =>
    rw [astralProbeWorker]
    split <;> rfl
  | lock | unlock => exact ⟨rfl, rfl⟩
  | count | ret => rfl

theorem astralInit_obeys (k : Kernel) (env : Env) (pc : InitPc) :
    (astralInit P k env pc).Obeys Frame.holds (.init pc) := by
  cases pc with
  | start =>
    rw [astralInit]
    split
    · rfl
    · split <;> rfl
  | register =>
    rw [astralInit]
    split <;> rfl
  | probe | attached => exact ⟨rfl, rfl, rfl⟩
  | test => rfl
  | ret code => cases code <;> rfl

/-- `astral_exit` is the one that unregisters with the lock held, and there is no
notifier by then. -/
theorem astralExit_obeys {s : Sys} {t : Tid} {pc : ExitPc} (h : Placed s.data t (.exit pc)) :
    (astralExit s pc).Obeys Frame.holds (.exit pc) := by
  cases pc with
  | check =>
    rw [astralExit]
    split <;> rfl
  | unregister client =>
    have hoff : s.data.sh.notifier = false := h.2 rfl
    rw [astralExit, busNotify_deaf (by simpa [Shared.note] using hoff)]
    rfl
  | unregisterNotifier | wait | lock | unlock => exact ⟨rfl, rfl⟩
  | cancel | clear | ret => rfl

theorem i2cDelAdapter_obeys (k : Kernel) (adap : I2cAdapter) :
    (i2cDelAdapter k adap).Obeys Frame.holds (.delAdapter adap) := by
  unfold i2cDelAdapter
  split <;> exact busNotify_obeys rfl rfl

/-- Every statement keeps the discipline where it is placed. -/
theorem instr_obeys {s : Sys} {t : Tid} (env : Env) {f : Frame} (h : Placed s.data t f) :
    (instr P s env f).Obeys Frame.holds f := by
  cases f with
  | init pc => exact astralInit_obeys s.data env pc
  | worker pc => exact astralProbeWorker_obeys s.data pc
  | exit pc => exact astralExit_obeys h
  | probeOnce scan pc => exact astralProbeOnce_obeys s.data env scan pc
  | attach pc => exact astralAttach_obeys s.data env pc
  | attached pc => exact astralAttached_obeys s.data pc
  | notify pc => exact astralBusNotify_obeys s.data pc
  | addAdapter adap => exact busNotify_obeys rfl rfl
  | delAdapter adap => exact i2cDelAdapter_obeys s.data adap
  | coreRet => rfl

/-! ### What the plain functions leave alone -/

theorem Kernel.Steady.refl (k : Kernel) : k.Steady k := ⟨rfl, rfl⟩

theorem Plain.of_step {k k' : Kernel} {f : Frame} (hk : k.Steady k') (hf : f.plain = true) :
    Plain k (.step k' f) :=
  ⟨hk, List.forall_mem_singleton.mpr hf⟩

theorem Plain.of_acquire (k : Kernel) {f : Frame} (hf : f.plain = true) : Plain k (.acquire f) :=
  ⟨.refl k, List.forall_mem_singleton.mpr hf⟩

theorem Plain.of_release (k : Kernel) {f : Frame} (hf : f.plain = true) : Plain k (.release f) :=
  ⟨.refl k, List.forall_mem_singleton.mpr hf⟩

theorem Plain.of_call (k : Kernel) {callee f : Frame} (hcallee : callee.plain = true)
    (hf : f.plain = true) : Plain k (.call k callee f) :=
  ⟨.refl k, List.forall_mem_cons.mpr ⟨hcallee, List.forall_mem_singleton.mpr hf⟩⟩

theorem Plain.of_ret {k k' : Kernel} (v : Value) (hk : k.Steady k') : Plain k (.ret k' v) :=
  ⟨hk, by simp [Instr.frames]⟩

theorem scheduleWork_notifier (sh : Shared) : sh.scheduleWork.notifier = sh.notifier := by
  unfold Shared.scheduleWork
  split <;> rfl

theorem i2cNewClientDevice_notifier {sh sh' : Shared} {adap : I2cAdapter} {addr : ℤ} {env : Env}
    {client : I2cClient} (h : sh.i2cNewClientDevice adap addr env = some (sh', client)) :
    sh'.notifier = sh.notifier := by
  unfold Shared.i2cNewClientDevice at h
  split at h
  · exact absurd h (by simp)
  · obtain ⟨rfl, rfl⟩ := Prod.mk.inj (Option.some.inj h)
    rfl

theorem astralBusNotify_plain (k : Kernel) (pc : BusNotifyPc) :
    Plain k (astralBusNotify P k pc) := by
  cases pc with
  | entry action dev =>
    cases action with
    | addDevice => cases dev <;> exact .of_step (.refl k) rfl
    | delDevice | other => exact .of_step (.refl k) rfl
  -- the reset of the counter is all the callback writes
  | add =>
    rw [astralBusNotify]
    split
    · exact .of_step ⟨rfl, rfl⟩ rfl
    · exact .of_step (.refl k) rfl
  | rearm rearm =>
    cases rearm with
    | true => exact .of_step ⟨rfl, scheduleWork_notifier k.sh⟩ rfl
    | false => exact .of_step (.refl k) rfl
  | del dev =>
    cases dev with
    | client client =>
      refine .of_step ⟨rfl, ?_⟩ rfl
      dsimp only [Shared.astralBusNotifyDel]
      split <;> rfl
    | adapter => exact .of_step (.refl k) rfl
  -- taking the lock and dropping it changes no data
  | lockAdd | lockDel => exact .of_acquire k rfl
  | unlockAdd | unlockDel => exact .of_release k rfl
  | ret => exact .of_ret _ ⟨rfl, rfl⟩

theorem astralAttached_plain (k : Kernel) (pc : AttachedPc) : Plain k (astralAttached k pc) := by
  cases pc with
  | lock => exact .of_acquire k rfl
  | read => exact .of_step (.refl k) rfl
  | unlock => exact .of_release k rfl
  | ret => exact .of_ret _ (.refl k)

theorem astralAttach_plain (k : Kernel) (env : Env) (pc : AttachPc) :
    Plain k (astralAttach P k env pc) := by
  cases pc with
  -- the core is called, and calls back; the notifier stays on the chain
  | create adap =>
    rw [astralAttach]
    split
    next sh client hnew =>
      exact busNotify_plain ⟨rfl, i2cNewClientDevice_notifier hnew⟩ rfl
    next => exact .of_step (.refl k) rfl
  | alloc => exact .of_step (.refl k) rfl
  | refresh =>
    refine .of_step ⟨rfl, ?_⟩ rfl
    cases (astralRefresh P.ttl .zeroed env.io).transfer <;> rfl
  | register =>
    rw [astralAttach]
    split
    · exact .of_step (.refl k) rfl
    · exact .of_step ⟨rfl, rfl⟩ rfl
  | unpublish =>
    refine .of_step ⟨rfl, ?_⟩ rfl
    dsimp only
    split <;> rfl
  -- and is called again for the client that goes
  | unregister => exact busNotify_plain ⟨rfl, rfl⟩ rfl
  | publish => exact .of_step ⟨rfl, rfl⟩ rfl
  | lock | lockErr => exact .of_acquire k rfl
  | unlock | unlockErr => exact .of_release k rfl
  | ret => exact .of_ret _ (.refl k)

theorem astralProbeOnce_plain (k : Kernel) (env : Env) (scan : AstralScan) (pc : ProbeOncePc) :
    Plain k (astralProbeOnce P k env scan pc) := by
  cases pc with
  -- raising the claim and settling it leave the notifier where it is
  | check =>
    rw [astralProbeOnce]
    split
    · exact .of_step (.refl k) rfl
    · exact .of_step ⟨rfl, rfl⟩ rfl
  | get adapterId =>
    rw [astralProbeOnce]
    split <;> exact .of_step (.refl k) rfl
  | gate adap =>
    rw [astralProbeOnce]
    split
    · exact .of_call k rfl rfl
    · exact .of_step (.refl k) rfl
  | settle => exact .of_step ⟨rfl, rfl⟩ rfl
  | walk | put => exact .of_step (.refl k) rfl
  | lock | lockSettle => exact .of_acquire k rfl
  | unlockBusy | unlockClaim | unlockSettle => exact .of_release k rfl
  | ret => exact .of_ret _ (.refl k)

theorem astralProbeWorker_plain (k : Kernel) (pc : ProbeWorkerPc) :
    Plain k (astralProbeWorker k pc) := by
  cases pc with
  | probe | attached => exact .of_call k rfl rfl
  | test => exact .of_step (.refl k) rfl
  | count => exact .of_step ⟨rfl, rfl⟩ rfl
  | retry scan attempts report =>
    rw [astralProbeWorker]
    split
    · refine .of_step ⟨rfl, (scheduleWork_notifier _).trans ?_⟩ rfl
      split <;> rfl
    · exact .of_step ⟨rfl, rfl⟩ rfl
  | lock => exact .of_acquire k rfl
  | unlock => exact .of_release k rfl
  | ret => exact .of_ret _ (.refl k)

theorem i2cDelAdapter_plain (k : Kernel) (adap : I2cAdapter) : Plain k (i2cDelAdapter k adap) := by
  unfold i2cDelAdapter
  split <;> exact busNotify_plain ⟨rfl, rfl⟩ rfl

theorem instr_plain (s : Sys) (env : Env) {f : Frame} (h : f.plain = true) :
    Plain s.data (instr P s env f) := by
  cases f with
  | init | exit => exact absurd h Bool.false_ne_true
  | worker pc => exact astralProbeWorker_plain s.data pc
  | probeOnce scan pc => exact astralProbeOnce_plain s.data env scan pc
  | attach pc => exact astralAttach_plain s.data env pc
  | attached pc => exact astralAttached_plain s.data pc
  | notify pc => exact astralBusNotify_plain s.data pc
  | addAdapter adap => exact busNotify_plain (.refl _) rfl
  | delAdapter adap => exact i2cDelAdapter_plain s.data adap
  | coreRet => exact .of_ret _ (.refl _)

/-! ### Every frame in its place -/

/-- What a statement of `astral_init` leaves of the placement: it enters no frame of
`astral_exit`, and the module is not going. -/
theorem astralInit_placed {k : Kernel} (env : Env) (pc : InitPc) (h : k.modState ≠ .going) :
    ((astralInit P k env pc).data k).modState ≠ .going ∧
      ∀ f ∈ (astralInit P k env pc).frames, f.plain = true ∨ ∃ pc', f = .init pc' := by
  cases pc with
  | start =>
    rw [astralInit]
    split
    · exact ⟨h, List.forall_mem_singleton.mpr (Or.inr ⟨_, rfl⟩)⟩
    · split <;> exact ⟨h, List.forall_mem_singleton.mpr (Or.inr ⟨_, rfl⟩)⟩
  | register =>
    rw [astralInit]
    split <;> exact ⟨h, List.forall_mem_singleton.mpr (Or.inr ⟨_, rfl⟩)⟩
  | probe | attached =>
    exact ⟨h, List.forall_mem_cons.mpr ⟨Or.inl rfl,
      List.forall_mem_singleton.mpr (Or.inr ⟨_, rfl⟩)⟩⟩
  | test attached =>
    refine ⟨?_, List.forall_mem_singleton.mpr (Or.inr ⟨_, rfl⟩)⟩
    cases attached <;> exact h
  | ret code => cases code <;> simp [astralInit, Instr.data, Instr.frames]

/-- A statement of `astral_exit` never puts the notifier on the chain, and its first takes
it off. -/
theorem astralExit_placed {s : Sys} {t : Tid} {pc : ExitPc} (h : Placed s.data t (.exit pc)) :
    ((astralExit s pc).data s.data).modState = .going ∧
      (s.data.sh.notifier = false → ((astralExit s pc).data s.data).sh.notifier = false) ∧
      ∀ f ∈ (astralExit s pc).frames, Placed ((astralExit s pc).data s.data) t f := by
  obtain ⟨hgoing, hdeaf⟩ := h
  cases pc with
  | unregisterNotifier =>
    exact ⟨hgoing, fun _ => rfl, List.forall_mem_singleton.mpr ⟨hgoing, fun _ => rfl⟩⟩
  | check =>
    rw [astralExit]
    split <;> exact ⟨hgoing, id, List.forall_mem_singleton.mpr ⟨hgoing, fun _ => hdeaf rfl⟩⟩
  | unregister client =>
    rw [astralExit, busNotify_deaf (by simpa [Shared.note] using hdeaf rfl)]
    exact ⟨hgoing, id, List.forall_mem_singleton.mpr ⟨hgoing, fun _ => hdeaf rfl⟩⟩
  | cancel | wait | lock | clear | unlock =>
    exact ⟨hgoing, id, List.forall_mem_singleton.mpr ⟨hgoing, fun _ => hdeaf rfl⟩⟩
  | ret => exact ⟨hgoing, id, by simp [astralExit, Instr.frames]⟩

/-- What starts is placed, and leaves the other frames in their places. -/
theorem start_placed {s : Sys} {a : Start} {k : Kernel} {t : Tid} {f : Frame}
    (hall : s.All Placed) (h : start s a = some (k, t, f)) :
    (∀ t', ∀ g ∈ s.stack t', Placed k t' g) ∧ Placed k t f := by
  -- all but the load and the unload leave the module and the chain as they are
  have hsteady (hk : s.data.Steady k) : ∀ t', ∀ g ∈ s.stack t', Placed k t' g :=
    fun t' g hg => (hall t' g hg).steady hk
  cases a with
  | init =>
    obtain ⟨hunformed, heq⟩ := Option.ite_none_right_eq_some.mp h
    simp only [Option.some.injEq, Prod.mk.injEq] at heq
    obtain ⟨rfl, rfl, rfl⟩ := heq
    refine ⟨fun t' g hg => ?_, rfl, by simp⟩
    have hplaced := hall t' g hg
    cases g with
    | init pc => exact ⟨hplaced.1, by simp⟩
    | exit pc => exact absurd (hunformed.symm.trans hplaced.1) (by decide)
    | _ => trivial
  | exit =>
    obtain ⟨hlive, heq⟩ := Option.ite_none_right_eq_some.mp h
    simp only [Option.some.injEq, Prod.mk.injEq] at heq
    obtain ⟨rfl, rfl, rfl⟩ := heq
    refine ⟨fun t' g hg => ?_, rfl, fun hdeaf => absurd hdeaf (by decide)⟩
    have hplaced := hall t' g hg
    cases g with
    | init pc =>
      -- `astral_init` has returned
      rw [hplaced.1, List.isEmpty_iff.mp hlive.2] at hg
      exact absurd hg (by simp)
    | exit pc => exact ⟨rfl, hplaced.2⟩
    | _ => trivial
  | worker | delAdapter | foreign =>
    obtain ⟨-, heq⟩ := Option.ite_none_right_eq_some.mp h
    simp only [Option.some.injEq, Prod.mk.injEq] at heq
    obtain ⟨rfl, rfl, rfl⟩ := heq
    exact ⟨hsteady ⟨rfl, rfl⟩, trivial⟩
  | addAdapter =>
    obtain ⟨-, heq⟩ := Option.ite_none_left_eq_some.mp h
    simp only [Option.some.injEq, Prod.mk.injEq] at heq
    obtain ⟨rfl, rfl, rfl⟩ := heq
    exact ⟨hsteady ⟨rfl, rfl⟩, trivial⟩

/-- **Every frame is in its place.** -/
theorem placed_reachable {s : Sys} (h : Reachable (threads P) s) : s.All Placed := by
  refine Code.all_reachable (fun s hs => ?_) (fun s a k t f => start_placed) ?_ ?_ h
  · rw [hs]
    exact fun t f hf => absurd hf (by simp [boot])
  · intro s t env f hall hf
    have hplaced := hall t f hf
    change (∀ t', ∀ g ∈ s.stack t', Placed ((instr P s env f).data s.data) t' g) ∧
      ∀ g ∈ (instr P s env f).frames, Placed ((instr P s env f).data s.data) t g
    -- a statement of any other function leaves the two phases alone
    by_cases hplain : f.plain = true
    · obtain ⟨hsteady, hframes⟩ := instr_plain s env hplain
      exact ⟨fun t' g hg => (hall t' g hg).steady hsteady, fun g hg => .of_plain (hframes g hg)⟩
    cases f with
    | init pc =>
      obtain ⟨ht, hmod⟩ := hplaced
      obtain ⟨hmod', hframes⟩ := astralInit_placed (P := P) env pc hmod
      refine ⟨fun t' g hg => ?_, fun g hg => ?_⟩
      · have hg := hall t' g hg
        cases g with
        | init pc' => exact ⟨hg.1, hmod'⟩
        | exit pc' => exact absurd hg.1 hmod
        | _ => trivial
      · rcases hframes g hg with hg | ⟨pc', rfl⟩
        exacts [.of_plain hg, ⟨ht, hmod'⟩]
    | exit pc =>
      obtain ⟨hgoing, hoff, hframes⟩ := astralExit_placed hplaced
      refine ⟨fun t' g hg => ?_, hframes⟩
      have hg := hall t' g hg
      cases g with
      | init pc' => exact absurd hplaced.1 hg.2
      | exit pc' => exact ⟨hgoing, fun hdeaf => hoff (hg.2 hdeaf)⟩
      | _ => trivial
    | _ => exact absurd rfl hplain
  · -- a caller goes on where it was
    intro k t f v hf
    cases f with
    | init pc => cases pc <;> cases v <;> exact hf
    | exit pc => exact hf
    | worker pc => cases pc <;> cases v <;> trivial
    | probeOnce scan pc => cases pc <;> cases v <;> trivial
    | _ => trivial

/-! ### The discipline, and what it is for -/

theorem resume_holds (f : Frame) (v : Value) : (resume f v).holds = f.holds := by
  cases f with
  | init pc => cases pc <;> cases v <;> rfl
  | worker pc => cases pc <;> cases v <;> rfl
  | probeOnce scan pc => cases pc <;> cases v <;> rfl
  | _ => rfl

theorem start_holds {s : Sys} {a : Start} {k : Kernel} {t : Tid} {f : Frame}
    (h : start s a = some (k, t, f)) : f.holds = false := by
  cases a with
  | init | worker | exit | delAdapter | foreign =>
    obtain ⟨-, heq⟩ := Option.ite_none_right_eq_some.mp h
    simp only [Option.some.injEq, Prod.mk.injEq] at heq
    obtain ⟨-, -, rfl⟩ := heq
    rfl
  | addAdapter =>
    obtain ⟨-, heq⟩ := Option.ite_none_left_eq_some.mp h
    simp only [Option.some.injEq, Prod.mk.injEq] at heq
    obtain ⟨-, -, rfl⟩ := heq
    rfl

theorem disciplined_reachable {s : Sys} (h : Reachable (threads P) s) :
    (code P).Disciplined Frame.holds s where
  instr t env f hf := instr_obeys env (placed_reachable h t f hf)
  resume := resume_holds
  start _ _ _ _ := start_holds

/-- The owner of `astral_lock` is the thread that is between taking and dropping it. -/
theorem locked_reachable {s : Sys} (h : Reachable (threads P) s) : s.Locked Frame.holds := by
  refine Code.locked (fun s hs t => ?_) (fun s hs => disciplined_reachable hs) h
  rw [hs]
  exact ⟨by simp [boot], by simp [boot]⟩

/-- **No self-deadlock on `astral_lock`.** In every interleaving of the load of the
module, its worker, its unload, and any number of other threads that register and delete
adapters and touch other devices of the bus, with the notifier called back on whichever
thread adds or deletes a device,

* no thread that is about to take `astral_lock` owns it;
* no thread owns it in a call that waits, for the worker to finish or for the callbacks
  to drain. -/
theorem astral_noSelfDeadlock (P : Setup) {s : Sys} (h : Reachable (threads P) s) (t : Tid) :
    ((code P).Acquires s t → s.lock ≠ some t) ∧ ((code P).Awaits s t → s.lock ≠ some t) :=
  ⟨Code.not_owner_of_acquires (locked_reachable h) (disciplined_reachable h),
    Code.not_owner_of_awaits (locked_reachable h) (disciplined_reachable h)⟩

/-- Whoever owns `astral_lock` can go on: it waits for nobody until it has dropped it. -/
theorem astral_lockOwner_goesOn (P : Setup) {s : Sys} (h : Reachable (threads P) s) {t : Tid}
    (howner : s.lock = some t) (env : Env) : ∃ s', (code P).next s (.run t env) = some s' :=
  Code.owner_goesOn (locked_reachable h) (disciplined_reachable h) howner env

/-- The sensor adapter is there and its chip does not answer: `astral_init` attaches, gives
the client up, and is called back for its deletion. -/
def failingLoad : List (Act Tid Env Start) :=
  let env : Env := ⟨none, ⟨0, .error EIO, 0⟩⟩
  [.start (.addAdapter 0 1 sensorName (some (.pci ⟨0x10de, 0x1043, 0x89e3⟩))),
    .run (.other 0) env, .run (.other 0) env, .start .init] ++ List.replicate 22 (.run .init env)

/-- The callback stands before the lock, on the stack of the attach that made it. -/
def calledBack (s : Sys) : Bool :=
  match s.stack .init with
  | [.notify (.lockDel _), .attach _, .probeOnce _ _, .init _] => true
  | _ => false

/-- Four calls deep, the thread that is about to take the lock does not own it. -/
theorem astral_noSelfDeadlock_calledBack :
    ∃ s, Reachable (threads oneCard) s ∧ calledBack s = true ∧ s.lock ≠ some .init := by
  have hrun : (System.exec (code oneCard).next boot failingLoad).any calledBack = true := by
    decide +kernel
  obtain ⟨s, hs, hback⟩ := (Option.any_eq_true _ _).mp hrun
  have hreach : Reachable (threads oneCard) s := System.exec_reachable rfl hs
  refine ⟨s, hreach, hback, (astral_noSelfDeadlock oneCard hreach .init).1 ?_⟩
  unfold calledBack at hback
  split at hback
  next hstack => exact ⟨Env.refused, _, _, _, hstack, rfl⟩
  next => exact absurd hback (by decide)

end Astral.Threads
