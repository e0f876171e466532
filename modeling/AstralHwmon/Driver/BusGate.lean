import AstralHwmon.Driver.Claim
import AstralHwmon.Driver.PlausibilityGate

/-!
# No traffic off the card

The bus a pass attaches to is chosen by number during a walk, under a lock that
is dropped before the attach; by the time `i2c_get_adapter` is called the number
may answer for another adapter. What keeps the driver off foreign buses is that
the gate is run again on the adapter object the reference was taken on.

`Gated` says that every client there is — registered, held by the pass in flight,
or on record — is on a `Recognised` adapter. The walk and its choice do not occur
in the proof: whatever number it picks, and whoever answers to it, a client is
only created behind the second check.
-/

open Transition

namespace Astral

variable {P : Setup}

/-- An adapter of a card the driver recognises, and the one the parameters
select. -/
def Recognised (P : Setup) (adap : I2cAdapter) : Prop :=
  (∃ pdev, adap.parent = some (.pci pdev) ∧ pdev.vendor = 0x10de ∧
    ((∃ model ∈ astralModels, model.subsystemVendor = pdev.subsystemVendor ∧
      model.subsystemDevice = pdev.subsystemDevice) ∨ P.allowUnknown = true)) ∧
  (0 ≤ P.bus → (adap.nr : ℤ) = P.bus) ∧ (P.bus < 0 → astralIsSensorAdapter adap = true)

/-- What the two checks of the gate establish. -/
theorem recognised_of_gate {adap : I2cAdapter}
    (hmatch : (astralCardMatches adap P.allowUnknown).isSome = true)
    (hsel : astralAdapterSelected P adap = true) : Recognised P adap := by
  refine ⟨astralCardMatches_isSome_iff.mp hmatch, ?_, ?_⟩
  · intro hbus
    simpa [astralAdapterSelected, hbus] using hsel
  · intro hbus
    simpa [astralAdapterSelected, not_le.mpr hbus] using hsel

/-- The client a position of the claimed part works on. -/
def ClaimedPc.client : ClaimedPc → Option I2cClient
  | .publish c | .alloc c | .refresh c | .register c | .unpublish c | .unregister c => some c
  | .settle c => c
  | _ => none

/-- Every client in sight is on a recognised adapter, and was created. -/
structure Gated (P : Setup) (o : Own) : Prop where
  clients : ∀ c ∈ o.sh.clients, .created c ∈ o.sh.log
  flight : ∀ pc c, o.flight = some pc → pc.client = some c → .created c ∈ o.sh.log
  created : ∀ c, .created c ∈ o.sh.log → Recognised P c.adapter
  transfer : ∀ c result, .transfer c result ∈ o.sh.log → .created c ∈ o.sh.log

/-- A step that creates no client, and makes no transfer but on a client that
was created. -/
theorem Gated.mono {o o' : Own} (new : List Event) (h : Gated P o)
    (hlog : o'.sh.log = new ++ o.sh.log) (hsub : o'.sh.clients ⊆ o.sh.clients)
    (hflight : ∀ pc c, o'.flight = some pc → pc.client = some c →
      ∃ pc₀, o.flight = some pc₀ ∧ pc₀.client = some c)
    (hcreated : ∀ c, .created c ∉ new)
    (htransfer : ∀ c result, .transfer c result ∈ new → .created c ∈ o.sh.log) : Gated P o' := by
  have hold {e : Event} (he : e ∈ o.sh.log) : e ∈ o'.sh.log :=
    hlog ▸ List.mem_append_right _ he
  -- each clause by whether the event is an old one or a new one
  refine ⟨fun c hc => hold (h.clients c (hsub hc)), ?_, ?_, ?_⟩
  · intro pc c hpc hc
    obtain ⟨pc₀, hpc₀, hc₀⟩ := hflight pc c hpc hc
    exact hold (h.flight pc₀ c hpc₀ hc₀)
  · intro c hc
    rw [hlog] at hc
    exact h.created c ((List.mem_append.mp hc).resolve_left (hcreated c))
  · intro c result hc
    rw [hlog] at hc
    rcases List.mem_append.mp hc with hc | hc
    · exact hold (htransfer c result hc)
    · exact hold (h.transfer c result hc)

/-- The claimed part of a pass creates clients behind the gate only, and makes its
transfer on the client it created. -/
theorem Gated.pass {o : Own} {env : Env} {pc : ClaimedPc} {sh' : Shared}
    {pc' : Option ClaimedPc} (h : Gated P o) (hpc : o.flight = some pc)
    (hstep : ClaimedStep P o.sh env pc sh' pc') :
    Gated P { o with sh := sh', flight := pc' } := by
  have hheld {c : I2cClient} (hc : pc.client = some c) : .created c ∈ o.sh.log :=
    h.flight pc c hpc hc
  cases hstep with
  | @create adap hmatch hsel =>
    -- the one step that adds a client, and the gate is its guard
    refine ⟨?_, ?_, ?_, ?_⟩
    · intro c hc
      rcases List.mem_cons.mp hc with rfl | hc
      · exact List.mem_cons_self
      · exact List.mem_cons_of_mem _ (h.clients c hc)
    · intro pc₁ c hpc₁ hc
      obtain rfl := Option.some.inj hpc₁
      obtain rfl := Option.some.inj hc
      exact List.mem_cons_self
    · intro c hc
      rcases List.mem_cons.mp hc with heq | hc
      · obtain rfl := Event.created.inj heq
        exact recognised_of_gate hmatch hsel
      · exact h.created c hc
    · intro c result hc
      rcases List.mem_cons.mp hc with heq | hc
      · exact absurd heq (by simp)
      · exact List.mem_cons_of_mem _ (h.transfer c result hc)
  -- the refresh reads through the client the pass holds
  | @read client hgood =>
    refine h.mono [.transfer client env.io.transfer] rfl (fun _ hc => hc) ?_ (by simp) ?_
    · rintro _ c ⟨⟩ hc
      exact ⟨_, hpc, hc⟩
    · intro c result hc
      obtain ⟨rfl, -⟩ := Event.transfer.inj (List.mem_singleton.mp hc)
      exact hheld rfl
  | @readFail client hbad =>
    refine h.mono [.transfer client env.io.transfer] rfl (fun _ hc => hc) ?_ (by simp) ?_
    · rintro _ c ⟨⟩ hc
      exact ⟨_, hpc, hc⟩
    · intro c result hc
      obtain ⟨rfl, -⟩ := Event.transfer.inj (List.mem_singleton.mp hc)
      exact hheld rfl
  | @unregister client =>
    rw [Shared.i2cUnregisterDevice_eq]
    refine h.mono [.unregistered client] rfl (fun _ hc => List.erase_subset hc) ?_ (by simp)
      (by simp)
    rintro _ c ⟨⟩ hc
    exact absurd hc (by simp [ClaimedPc.client])
  | @register client =>
    refine h.mono [.hwmon client] rfl (fun _ hc => hc) ?_ (by simp) (by simp)
    rintro _ c ⟨⟩ hc
    exact ⟨_, hpc, hc⟩
  | failed =>
    refine h.mono [.passFailed] rfl (fun _ hc => hc) ?_ (by simp) (by simp)
    rintro _ c ⟨⟩
  | settled =>
    refine h.mono [] rfl (fun _ hc => hc) ?_ (by simp) (by simp)
    rintro _ c ⟨⟩
  | walk | found | notFound | notCreated =>
    -- no client yet, or none any more
    refine h.mono [] rfl (fun _ hc => hc) ?_ (by simp) (by simp)
    rintro _ c ⟨⟩ hc
    exact absurd hc (by simp [ClaimedPc.client])
  | publish | alloc | allocFail | registerFail | unpublish | unpublished =>
    refine h.mono [] rfl (fun _ hc => hc) ?_ (by simp) (by simp)
    rintro _ c ⟨⟩ hc
    exact ⟨_, hpc, hc⟩

theorem Gated.core {o : Own} {a : Action} {sh' : Shared} (h : Gated P o)
    (hstep : CoreStep P o.sh a sh') : Gated P { o with sh := sh' } := by
  cases hstep with
  | removeAdapter =>
    -- a removal records deletions only
    obtain ⟨clients, client, gone, heq, hsub, -, hgone⟩ := o.sh.delAdapter_spec _
    rw [heq]
    refine h.mono gone rfl hsub (fun pc c hpc hc => ⟨pc, hpc, hc⟩) ?_ ?_
    · intro c hc
      obtain ⟨c', -, heq⟩ := hgone _ hc
      exact absurd heq (by simp)
    · intro c result hc
      obtain ⟨c', -, heq⟩ := hgone _ hc
      exact absurd heq (by simp)
  | @hwmonRead client result hlive =>
    refine h.mono [.transfer client result] rfl (fun _ hc => hc) (fun pc c hpc hc => ⟨pc, hpc, hc⟩)
      (by simp) ?_
    intro c result hc
    obtain ⟨rfl, -⟩ := Event.transfer.inj (List.mem_singleton.mp hc)
    -- its hwmon device lives as long as the client is registered
    exact h.clients _ hlive
  | addAdapter | notifyIgnored | notifyAdd | rearm =>
    exact h.mono [] rfl (fun _ hc => hc) (fun pc c hpc hc => ⟨pc, hpc, hc⟩) (by simp) (by simp)

theorem Gated.move {o o' : Own} {a : Action} {act : Option (ClaimedPc × Env)}
    (h : Gated P o) (hmove : Move P o a act o') : Gated P o' := by
  cases hmove with
  | core hstep => exact h.core hstep
  | pass hpc _ hstep => exact h.pass hpc hstep
  | claim =>
    refine h.mono [] rfl (fun _ hc => hc) ?_ (by simp) (by simp)
    rintro _ c ⟨⟩ hc
    exact absurd hc (by simp [ClaimedPc.client])
  | @unregister client =>
    rw [Shared.i2cUnregisterDevice_eq]
    exact h.mono [.unregistered client] rfl (fun _ hc => List.erase_subset hc)
      (fun pc c hpc hc => ⟨pc, hpc, hc⟩) (by simp) (by simp)
  | control | load | unload | release | nothingToRelease | clear =>
    exact h.mono [] rfl (fun _ hc => hc) (fun pc c hpc hc => ⟨pc, hpc, hc⟩) (by simp) (by simp)

/-- **No I2C traffic leaves the recognised card.** In every run — adapters
appearing and disappearing at any moment, their ids reused between the walk and
the attach — each client the driver creates is on an adapter whose parent is a
PCI device of the vendor, with a subsystem pair of the table unless unknown ones
are allowed, and which is the one `bus` names or the sensor adapter. Each transfer
is on such a client. -/
theorem astral_recognisedCardOnly {s : St} (h : Reachable (lifecycle P) s) :
    (∀ client, .created client ∈ s.sh.log → Recognised P client.adapter) ∧
      ∀ client result, .transfer client result ∈ s.sh.log →
        .created client ∈ s.sh.log ∧ Recognised P client.adapter := by
  have hgated : Gated P s.own := by
    refine own_invariant_reachable ⟨?_, ?_, ?_, ?_⟩ (fun s a o hI hmove => hI.move hmove) h
    · simp [St.own, St.boot]
    · simp [St.own, St.boot, St.flight, InitPc.claimed, WorkerPc.claimed]
    · simp [St.own, St.boot]
    · simp [St.own, St.boot]
  refine ⟨hgated.created, fun client result htr => ?_⟩
  have hcreated := hgated.transfer client result htr
  exact ⟨hcreated, hgated.created client hcreated⟩

/-- Loading on the machine with one card, up to a transfer on its sensor
adapter. -/
theorem astral_recognisedCardOnly_oneCard :
    ∃ s, Reachable (lifecycle oneCard) s ∧
      .transfer ⟨1, sensorAdapter 0 1, 0x2b⟩ (.block idleBlock) ∈ s.sh.log ∧
      Recognised oneCard (sensorAdapter 0 1) := by
  have hrun : (System.exec (next oneCard) St.boot
      (addSensor ++ List.replicate 9 (.init (.ok (.block idleBlock))))).any
        (fun s => decide (.transfer ⟨1, sensorAdapter 0 1, 0x2b⟩ (.block idleBlock) ∈ s.sh.log))
      = true := by
    decide +kernel
  obtain ⟨s, hexec, htr⟩ := System.any_decide_iff.mp hrun
  have hreach : Reachable (lifecycle oneCard) s := System.exec_reachable rfl hexec
  exact ⟨s, hreach, htr, ((astral_recognisedCardOnly hreach).2 _ _ htr).2⟩

end Astral
