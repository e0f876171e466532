import AstralHwmon.Driver.Claim
import AstralHwmon.Driver.PlausibilityGate

/-!
# Who owns the chip

The driver's pointer to its client is published before the chip is proven, and is
cleared by three parties: the attach that fails, the notifier when the adapter
goes, and `astral_exit`. `Owned` says what the pointer and the i2c core's list of
the driver's clients can be at each position of the pass in flight, and `Released`
what `astral_exit` has made of them.

* A pass that has not created its client, and one that has disposed of it, find
  no client at all (`Shared.Free`).
* From publication on, the client is the one the pointer names, or a removal has
  taken both (`Shared.Holding`). On the list there is never another.
* With no pass in flight, either nothing is left, or the pointer names the one
  registered client and its hwmon device (`Shared.Attached`).

The last clause has one gap. A removal between `i2c_new_client_device` and the
publication notifies a driver that has nothing to clear yet, and the pass then
publishes the client it no longer has. If that attach succeeds, the pointer
dangles with no pass in flight, and nothing will ever clear it
(`astral_singleOwner_dangling`). `RegistersLive` is the condition that no attach
succeeds so, and under it ownership is single in every reachable state
(`astral_singleOwner`).
-/

open Transition

namespace Astral

variable {P : Setup}

namespace Shared

/-- The driver has no client, and no pointer to one. -/
def Free (sh : Shared) : Prop := sh.astralClient = none ∧ sh.clients = []

/-- No client of the driver but `client` is registered. -/
def AtMost (sh : Shared) (client : I2cClient) : Prop := sh.clients = [] ∨ sh.clients = [client]

/-- `client` is published but not proven, or a removal has taken it back. -/
def Holding (sh : Shared) (client : I2cClient) : Prop :=
  sh.astralClient = some client ∧ sh.AtMost client ∨ sh.Free

/-- The attach of `client` has succeeded. -/
def Attached (sh : Shared) (client : I2cClient) : Prop :=
  sh.astralClient = some client ∧ sh.AtMost client ∧ .hwmon client ∈ sh.log ∧
    (sh.notifier = true → sh.clients = [client])

end Shared

/-- The driver's clients at a position of the pass in flight. -/
def Owned (sh : Shared) : Option ClaimedPc → Prop
  | none => sh.Free ∨ ∃ client, sh.Attached client
  | some .walk | some (.get _) | some (.gate _) | some (.settle none) => sh.Free
  | some (.publish client) | some (.unregister client) =>
    sh.astralClient = none ∧ sh.AtMost client
  | some (.alloc client) | some (.refresh client) | some (.register client)
  | some (.unpublish client) => sh.Holding client
  | some (.settle (some client)) => sh.Free ∨ sh.Attached client

/-- What `astral_exit` has made of them. -/
def Released (o : Own) : Prop :=
  match o.exit with
  | .unregister client =>
    o.flight = none ∧ o.sh.notifier = false ∧ o.sh.astralClient = some client
  | .clear => o.flight = none ∧ o.sh.notifier = false ∧ o.sh.clients = []
  | .done => o.flight = none ∧ o.sh.Free
  | _ => True

/-- The client of the attach that a step of the pass completes. -/
def ClaimedPc.completes (env : Env) : ClaimedPc → Option I2cClient
  | .register client => if env.fault.isSome then none else some client
  | _ => none

/-- When the registration of the hwmon device completes an attach the notifier
watches over, the client still exists. -/
def RegistersLive (s : St) (a : Action) : Prop :=
  ∀ act ∈ s.acting a, ∀ client ∈ act.1.completes act.2,
    s.sh.notifier = true → s.sh.astralClient = some client → client ∈ s.sh.clients

instance (s : St) (a : Action) : Decidable (RegistersLive s a) :=
  inferInstanceAs (Decidable (∀ act ∈ s.acting a, _))

/-! ### The i2c core -/

theorem Shared.delAdapter_nil {sh : Shared} (adap : I2cAdapter) (h : sh.clients = []) :
    sh.delAdapter adap = { sh with adapters := sh.adapters.erase adap } := by
  simp [Shared.delAdapter, h]

theorem Shared.delAdapter_other {sh : Shared} {adap : I2cAdapter} {client : I2cClient}
    (h : sh.clients = [client]) (hne : client.adapter ≠ adap) :
    sh.delAdapter adap = { sh with adapters := sh.adapters.erase adap } := by
  simp [Shared.delAdapter, h, hne]

/-- Deleting the adapter of the only client. -/
theorem Shared.delAdapter_only {sh : Shared} {adap : I2cAdapter} {client : I2cClient}
    (h : sh.clients = [client]) (heq : client.adapter = adap) :
    sh.delAdapter adap =
      { sh with
        adapters := sh.adapters.erase adap
        clients := []
        astralClient := if sh.notifier = true ∧ sh.astralClient = some client then none
          else sh.astralClient
        log := .deleted client :: sh.log } := by
  simp [Shared.delAdapter, h, heq, Shared.dropClient_eq, Shared.note]

theorem Shared.AtMost.length_le {sh : Shared} {client : I2cClient} (h : sh.AtMost client) :
    sh.clients.length ≤ 1 := by
  rcases h with h | h <;> simp [h]

theorem Shared.AtMost.erase_eq {sh : Shared} {client : I2cClient} (h : sh.AtMost client) :
    sh.clients.erase client = [] := by
  rcases h with h | h <;> simp [h]

theorem Shared.AtMost.eq_of_mem {sh : Shared} {client : I2cClient} (h : sh.AtMost client)
    (hmem : client ∈ sh.clients) : sh.clients = [client] := by
  rcases h with h | h
  · exact absurd hmem (by simp [h])
  · exact h

/-- Ownership is about the pointer, the clients, the notifier and the hwmon devices
on record. -/
theorem Owned.congr {sh sh' : Shared} {flight : Option ClaimedPc} (h : Owned sh flight)
    (hptr : sh'.astralClient = sh.astralClient) (hclients : sh'.clients = sh.clients)
    (hn : sh'.notifier = true → sh.notifier = true)
    (hlog : ∀ client, .hwmon client ∈ sh.log → .hwmon client ∈ sh'.log) : Owned sh' flight := by
  have hattached {client : I2cClient} (ha : sh.Attached client) : sh'.Attached client := by
    obtain ⟨hclient, hmost, hhwmon, hlive⟩ := ha
    refine ⟨hptr.trans hclient, ?_, hlog _ hhwmon, fun hon => hclients.trans (hlive (hn hon))⟩
    rw [Shared.AtMost, hclients]
    exact hmost
  have hfree (hf : sh.Free) : sh'.Free := ⟨hptr.trans hf.1, hclients.trans hf.2⟩
  -- by the position: what is said there is of the pointer, the list and the record
  cases flight with
  | none => exact h.imp hfree (fun ⟨client, ha⟩ => ⟨client, hattached ha⟩)
  | some pc =>
    cases pc with
    | walk | get | gate => exact hfree h
    | publish | unregister | alloc | refresh | register | unpublish =>
      simpa only [Owned, Shared.Holding, Shared.AtMost, Shared.Free, hptr, hclients] using h
    | settle client =>
      cases client with
      | none => exact hfree h
      | some client => exact h.imp hfree hattached

/-- What a removal does to the one client there may be. -/
theorem Shared.AtMost.delAdapter {sh : Shared} {client : I2cClient} (adap : I2cAdapter)
    (h : sh.AtMost client) :
    sh.delAdapter adap = { sh with adapters := sh.adapters.erase adap } ∨
      sh.clients = [client] ∧ client.adapter = adap ∧
        sh.delAdapter adap =
          { sh with
            adapters := sh.adapters.erase adap
            clients := []
            astralClient := if sh.notifier = true ∧ sh.astralClient = some client then none
              else sh.astralClient
            log := .deleted client :: sh.log } := by
  rcases h with h | h
  · exact Or.inl (Shared.delAdapter_nil adap h)
  by_cases heq : client.adapter = adap
  · exact Or.inr ⟨h, heq, Shared.delAdapter_only h heq⟩
  · exact Or.inl (Shared.delAdapter_other h heq)

theorem Owned.delAdapter {sh : Shared} {flight : Option ClaimedPc} (adap : I2cAdapter)
    (h : Owned sh flight) : Owned (sh.delAdapter adap) flight := by
  -- a removal that takes no client leaves ownership as it is
  have hkeep (heq : sh.delAdapter adap = { sh with adapters := sh.adapters.erase adap }) :
      Owned (sh.delAdapter adap) flight := by
    rw [heq]
    exact h.congr rfl rfl (fun hn => hn) (fun _ hmem => hmem)
  have hfree (hf : sh.Free) : Owned (sh.delAdapter adap) flight :=
    hkeep (Shared.delAdapter_nil adap hf.2)
  have hattached {client : I2cClient} (ha : sh.Attached client) :
      Owned (sh.delAdapter adap) flight ∨ (sh.delAdapter adap).Free ∨
        (sh.delAdapter adap).Attached client := by
    obtain ⟨hclient, hmost, hhwmon, -⟩ := ha
    rcases hmost.delAdapter adap with heq | ⟨-, -, heq⟩
    · exact Or.inl (hkeep heq)
    rw [heq]
    by_cases hn : sh.notifier = true
    -- the notification clears the pointer
    · exact Or.inr (Or.inl ⟨if_pos ⟨hn, hclient⟩, rfl⟩)
    · -- nobody hears of it: the pointer stays
      refine Or.inr (Or.inr ⟨?_, Or.inl rfl, List.mem_cons_of_mem _ hhwmon, ?_⟩)
      · rw [if_neg (fun hc => hn hc.1)]
        exact hclient
      · intro hon
        exact absurd hon hn
  cases flight with
  | none =>
    rcases h with hf | ⟨client, ha⟩
    · exact hfree hf
    rcases hattached ha with h | hf | ha
    · exact h
    · exact Or.inl hf
    · exact Or.inr ⟨client, ha⟩
  | some pc =>
    cases pc with
    | walk | get | gate => exact hfree h
    | publish client | unregister client =>
      -- the pointer is clear already, on either side of the attach
      rcases Shared.AtMost.delAdapter adap h.2 with heq | ⟨-, -, heq⟩
      · exact hkeep heq
      · rw [heq]
        exact ⟨by rw [h.1]; simp, Or.inl rfl⟩
    | alloc client | refresh client | register client | unpublish client =>
      rcases h with ⟨hclient, hmost⟩ | hf
      · rcases hmost.delAdapter adap with heq | ⟨-, -, heq⟩
        · exact hkeep heq
        rw [heq]
        by_cases hn : sh.notifier = true
        · exact Or.inr ⟨if_pos ⟨hn, hclient⟩, rfl⟩
        · refine Or.inl ⟨?_, Or.inl rfl⟩
          rw [if_neg (fun hc => hn hc.1)]
          exact hclient
      · exact hfree hf
    | settle client =>
      cases client with
      | none => exact hfree h
      | some client =>
        rcases h with hf | ha
        · exact hfree hf
        · exact (hattached ha).elim (fun h => h) (fun h => h)

theorem Owned.core {sh sh' : Shared} {flight : Option ClaimedPc} {a : Action}
    (h : Owned sh flight) (hstep : CoreStep P sh a sh') : Owned sh' flight := by
  cases hstep with
  | removeAdapter => exact h.delAdapter _
  | hwmonRead =>
    exact h.congr rfl rfl (fun hn => hn) (fun _ hmem => List.mem_cons_of_mem _ hmem)
  | addAdapter | notifyIgnored | notifyAdd | rearm =>
    exact h.congr rfl rfl (fun hn => hn) (fun _ hmem => hmem)

/-! ### The pass -/

theorem Owned.pass {sh sh' : Shared} {env : Env} {pc : ClaimedPc} {pc' : Option ClaimedPc}
    (h : Owned sh (some pc)) (hstep : ClaimedStep P sh env pc sh' pc')
    (hlive : ∀ client ∈ pc.completes env, sh.notifier = true →
      sh.astralClient = some client → client ∈ sh.clients) : Owned sh' pc' := by
  cases hstep with
  | walk | found | notFound | notCreated => exact h
  -- created beside no other, as the list was empty
  | create => exact ⟨h.1, Or.inr (by rw [h.2])⟩
  | publish => exact Or.inl ⟨rfl, h.2⟩
  | alloc | allocFail | registerFail => exact h
  | read | readFail => exact h
  | register hfault =>
    rcases h with ⟨hclient, hmost⟩ | hf
    -- the condition is needed here, and nowhere else
    · refine Or.inr ⟨hclient, hmost, List.mem_cons_self, fun hn => ?_⟩
      exact hmost.eq_of_mem (hlive _ (by simp [ClaimedPc.completes, hfault]) hn hclient)
    -- a removal has taken both: the hwmon device went with the client
    · exact Or.inl hf
  | unpublish hclient =>
    rcases h with ⟨-, hmost⟩ | hf
    · exact ⟨rfl, hmost⟩
    · exact ⟨rfl, Or.inl hf.2⟩
  | unpublished hne =>
    rcases h with ⟨hclient, -⟩ | hf
    · exact absurd hclient hne
    · exact ⟨hf.1, Or.inl hf.2⟩
  | unregister =>
    rw [Shared.i2cUnregisterDevice_eq]
    exact ⟨by simp [h.1], Shared.AtMost.erase_eq h.2⟩
  | settled => exact h.imp (fun hf => hf) (fun ha => ⟨_, ha⟩)
  | failed => exact Or.inl h

theorem Owned.move {s : St} {a : Action} {o : Own} (h : Owned s.sh s.flight)
    (hr : Released s.own) (hok : RegistersLive s a) (hmove : Move P s.own a (s.acting a) o) :
    Owned o.sh o.flight := by
  generalize hact : s.acting a = act at hmove
  cases hmove with
  | core hstep => exact h.core hstep
  | control => exact h.congr rfl rfl (fun hn => hn) (fun _ hmem => hmem)
  | load hflight _ hclient hclients =>
    change Owned _ s.flight
    rw [show s.flight = none from hflight]
    exact Or.inl ⟨hclient, hclients⟩
  | unload => exact h.congr rfl rfl (fun hn => absurd hn (by simp)) (fun _ hmem => hmem)
  | claim hflight _ hclient =>
    rw [show s.flight = none from hflight] at h
    rcases h with hf | ⟨client, ha⟩
    · exact hf
    -- the claim is refused while a chip is published
    · exact absurd (ha.1.symm.trans hclient) (by simp)
  | @pass env pc sh' pc' hflight _ hstep =>
    rw [show s.flight = some pc from hflight] at h
    exact h.pass hstep (hok _ hact)
  | release | nothingToRelease => exact h
  | @unregister client hflight hn hexit =>
    rw [Released, hexit] at hr
    obtain ⟨-, -, hclient⟩ := hr
    -- the notifier is gone, so the pointer outlives the client until it is cleared
    change Owned _ s.flight
    rw [show s.flight = none from hflight] at h ⊢
    rw [Shared.i2cUnregisterDevice_eq]
    rcases h with hf | ⟨client', ha⟩
    · exact absurd (hf.1.symm.trans hclient) (by simp)
    · obtain rfl : client' = client := Option.some.inj (ha.1.symm.trans hclient)
      have hdone : s.sh.clients.erase client' = [] := ha.2.1.erase_eq
      refine Or.inr ⟨client', ?_, Or.inl hdone, List.mem_cons_of_mem _ ha.2.2.1, ?_⟩
      · rw [if_neg (by simp [hn])]
        exact ha.1
      · intro hon
        exact absurd hon (by simp [hn])
  | clear hflight hexit =>
    rw [Released, hexit] at hr
    change Owned _ s.flight
    rw [show s.flight = none from hflight]
    exact Or.inl ⟨rfl, hr.2.2⟩

/-- Before `astral_exit` looks at the pointer there is nothing to say. -/
theorem released_of_undecided {o : Own} (h : o.exit.undecided = true) : Released o := by
  unfold Released
  cases hexit : o.exit <;> simp [hexit, ExitPc.undecided] at h ⊢

theorem ExitPc.undecided_of_not_quiet {exit : ExitPc} (h : exit.quiet = false) :
    exit.undecided = true := by
  cases exit <;> simp [ExitPc.undecided, ExitPc.quiet] at h ⊢

theorem Released.core {o : Own} {a : Action} {sh' : Shared} (hr : Released o)
    (hstep : CoreStep P o.sh a sh') : Released { o with sh := sh' } := by
  obtain ⟨hn, -, -, hsub, hptr⟩ := hstep.frame
  have hclients (h : o.sh.clients = []) : sh'.clients = [] :=
    List.eq_nil_of_subset_nil (h ▸ hsub)
  have hdeaf (h : o.sh.notifier = false) : sh'.astralClient = o.sh.astralClient :=
    hptr.resolve_right (fun hheard => absurd hheard.1 (by simp [h]))
  -- what the core can still do is delete the client before it is unregistered
  unfold Released at hr ⊢
  cases hexit : o.exit with
  | unregister client =>
    simp only [hexit] at hr ⊢
    exact ⟨hr.1, hn.trans hr.2.1, (hdeaf hr.2.1).trans hr.2.2⟩
  | clear =>
    simp only [hexit] at hr ⊢
    exact ⟨hr.1, hn.trans hr.2.1, hclients hr.2.2⟩
  | done =>
    simp only [hexit] at hr ⊢
    refine ⟨hr.1, ?_, hclients hr.2.2⟩
    rcases hptr with hptr | hptr
    · exact hptr.trans hr.2.1
    · exact hptr.2
  | idle | unregisterNotifier | cancel | wait | release => trivial

theorem Released.move {o o' : Own} {a : Action} {act : Option (ClaimedPc × Env)}
    (h : Owned o.sh o.flight) (hr : Released o) (hmove : Move P o a act o') : Released o' := by
  cases hmove with
  | core hstep => exact hr.core hstep
  | control hexit =>
    rcases hexit with rfl | hexit
    · exact hr
    · exact released_of_undecided hexit.2
  | load _ hexit => exact released_of_undecided (hexit ▸ rfl)
  | unload => trivial
  | claim _ hexit => exact released_of_undecided (ExitPc.undecided_of_not_quiet hexit)
  | pass _ hexit => exact released_of_undecided (ExitPc.undecided_of_not_quiet hexit)
  | release hflight hn _ hclient => exact ⟨hflight, hn, hclient⟩
  | nothingToRelease hflight _ hclient =>
    -- with no pass in flight, no pointer means no client
    rw [hflight] at h
    rcases h with hf | ⟨client, ha⟩
    · exact ⟨hflight, hf⟩
    · exact absurd (ha.1.symm.trans hclient) (by simp)
  | @unregister client hflight hn hexit =>
    rw [Released, hexit] at hr
    rw [hflight] at h
    rw [Shared.i2cUnregisterDevice_eq]
    refine ⟨hflight, hn, ?_⟩
    rcases h with hf | ⟨client', ha⟩
    · exact absurd (hf.1.symm.trans hr.2.2) (by simp)
    · obtain rfl : client' = client := Option.some.inj (ha.1.symm.trans hr.2.2)
      exact ha.2.1.erase_eq
  | clear hflight hexit =>
    rw [Released, hexit] at hr
    exact ⟨hflight, rfl, hr.2.2⟩

/-! ### A read before the hwmon device -/

/-- Every hwmon device on record was registered after a good transfer on its
client. -/
def ReadFirst (log : List Event) : Prop :=
  ∀ client older, .hwmon client :: older <:+ log →
    ∃ result, result.Good ∧ .transfer client result ∈ older

theorem ReadFirst.cons {log : List Event} {e : Event} (h : ReadFirst log)
    (he : ∀ client, e = .hwmon client → ∃ result, result.Good ∧ .transfer client result ∈ log) :
    ReadFirst (e :: log) := by
  intro client older hsuffix
  rcases List.suffix_cons_iff.mp hsuffix with heq | hsuffix
  · obtain ⟨rfl, rfl⟩ := List.cons.inj heq
    exact he client rfl
  · exact h client older hsuffix

theorem ReadFirst.append {log : List Event} : ∀ {new : List Event}, ReadFirst log →
    (∀ client, .hwmon client ∉ new) → ReadFirst (new ++ log)
  | [], h, _ => h
  | e :: new, h, hnew => by
    refine ReadFirst.cons (h.append fun client hmem => hnew client (List.mem_cons_of_mem e hmem)) ?_
    rintro client rfl
    exact absurd List.mem_cons_self (hnew client)

/-- The record is in order, and a pass about to register its hwmon device has made
its good transfer. -/
structure Proven (o : Own) : Prop where
  readFirst : ReadFirst o.sh.log
  register : ∀ client, o.flight = some (.register client) →
    ∃ result, result.Good ∧ .transfer client result ∈ o.sh.log

theorem Proven.pass {o : Own} {env : Env} {pc : ClaimedPc} {sh' : Shared}
    {pc' : Option ClaimedPc} (h : Proven o) (hpc : o.flight = some pc)
    (hstep : ClaimedStep P o.sh env pc sh' pc') : Proven { o with sh := sh', flight := pc' } := by
  cases hstep with
  | @read client hgood =>
    -- the good read is what leads to the registration
    refine ⟨h.readFirst.cons (by simp), ?_⟩
    rintro client ⟨⟩
    exact ⟨_, hgood, List.mem_cons_self⟩
  | @register client =>
    refine ⟨h.readFirst.cons ?_, by simp⟩
    rintro client ⟨⟩
    exact h.register _ hpc
  | create | readFail | failed => exact ⟨h.readFirst.cons (by simp), by simp⟩
  | unregister =>
    rw [Shared.i2cUnregisterDevice_eq]
    exact ⟨h.readFirst.cons (by simp), by simp⟩
  | walk | found | notFound | notCreated | publish | alloc | allocFail | registerFail
  | unpublish | unpublished | settled => exact ⟨h.readFirst, by simp⟩

theorem Proven.move {o o' : Own} {a : Action} {act : Option (ClaimedPc × Env)} (h : Proven o)
    (hmove : Move P o a act o') : Proven o' := by
  -- the good transfer behind a registration stays in a record that grows
  have hkeep {log : List Event} (hsub : ∀ e ∈ o.sh.log, e ∈ log) (client : I2cClient)
      (hpc : o.flight = some (.register client)) :
      ∃ result, result.Good ∧ .transfer client result ∈ log := by
    obtain ⟨result, hgood, hmem⟩ := h.register client hpc
    exact ⟨result, hgood, hsub _ hmem⟩
  cases hmove with
  | pass hpc _ hstep => exact h.pass hpc hstep
  | core hstep =>
    cases hstep with
    | removeAdapter =>
      obtain ⟨clients, client, gone, heq, -, -, hgone⟩ := o.sh.delAdapter_spec _
      rw [heq]
      refine ⟨h.readFirst.append fun client hmem => ?_,
        hkeep fun e he => List.mem_append_right gone he⟩
      -- what goes with an adapter is recorded as deletions, and these are none
      obtain ⟨c, -, hc⟩ := hgone _ hmem
      exact absurd hc (by simp)
    | hwmonRead =>
      exact ⟨h.readFirst.cons (by simp), hkeep fun e he => List.mem_cons_of_mem _ he⟩
    | addAdapter | notifyIgnored | notifyAdd | rearm => exact ⟨h.readFirst, h.register⟩
  | unregister =>
    rw [Shared.i2cUnregisterDevice_eq]
    exact ⟨h.readFirst.cons (by simp), hkeep fun e he => List.mem_cons_of_mem _ he⟩
  | claim => exact ⟨h.readFirst, by simp⟩
  | control | load | unload | release | nothingToRelease | clear => exact ⟨h.readFirst, h.register⟩

/-! ### Single ownership -/

theorem owned_reachable {s : St} (h : ReachableBy (lifecycle P) RegistersLive s) :
    Owned s.sh s.flight ∧ Released s.own := by
  refine own_invariant (I := fun o => Owned o.sh o.flight ∧ Released o) ?_ ?_ h
  · exact ⟨Or.inl ⟨rfl, rfl⟩, trivial⟩
  · rintro s a o - ⟨hown, hrel⟩ hok hmove
    exact ⟨hown.move hrel hok hmove, hrel.move hown hmove⟩

theorem proven_reachable {s : St} (h : Reachable (lifecycle P) s) : Proven s.own := by
  refine own_invariant_reachable ⟨?_, ?_⟩ (fun s a o hI hmove => hI.move hmove) h
  · simp [ReadFirst, St.own, St.boot]
  · simp [St.own, St.boot, St.flight, InitPc.claimed, WorkerPc.claimed]

theorem Owned.length_le {sh : Shared} {flight : Option ClaimedPc} (h : Owned sh flight) :
    sh.clients.length ≤ 1 := by
  have hfree (hf : sh.Free) : sh.clients.length ≤ 1 := by simp [hf.2]
  cases flight with
  | none => exact h.elim hfree (fun ⟨_, ha⟩ => ha.2.1.length_le)
  | some pc =>
    cases pc with
    | walk | get | gate => exact hfree h
    | publish | unregister => exact Shared.AtMost.length_le h.2
    | alloc | refresh | register | unpublish => exact h.elim (fun hh => hh.2.length_le) hfree
    | settle client =>
      cases client with
      | none => exact hfree h
      | some client => exact h.elim hfree (fun ha => ha.2.1.length_le)

/-- **Single ownership of the chip.** In every state reached by steps that
register hwmon devices on living clients only: at most one pass holds the claim,
and `astral_claiming` says whether one does; at most one client of the driver is
registered; with the notifier registered and no pass in flight, the driver's
pointer is set exactly when a client is registered, which is then the one it
points to, with a hwmon device and a plausible frame read through it; no hwmon
device was registered before such a read; and when `astral_exit` has returned,
no client is registered and no probe work is pending or running. -/
theorem astral_singleOwner {s : St} (h : ReachableBy (lifecycle P) RegistersLive s) :
    (s.init.claimed = none ∨ s.worker.claimed = none) ∧
    s.sh.astralClaiming = (s.init.claimed.isSome || s.worker.claimed.isSome) ∧
    s.sh.clients.length ≤ 1 ∧
    (s.sh.notifier = true → s.sh.astralClaiming = false →
      (s.sh.astralClient.isSome = true ↔ s.sh.clients ≠ []) ∧
      ∀ client ∈ s.sh.clients, s.sh.astralClient = some client ∧ .hwmon client ∈ s.sh.log ∧
        ∃ result, result.Good ∧ .transfer client result ∈ s.sh.log) ∧
    (∀ client older, .hwmon client :: older <:+ s.sh.log →
      ∃ result, result.Good ∧ .transfer client result ∈ older) ∧
    (s.exit = .done → s.sh.clients = [] ∧ s.sh.pending = false ∧ s.worker = .idle) := by
  have hc := control_reachable h.reachable
  obtain ⟨hown, hrel⟩ := owned_reachable h
  have hproven := proven_reachable h.reachable
  refine ⟨hc.exclusive, hc.claiming, hown.length_le, ?_, hproven.readFirst, ?_⟩
  · intro hn hclaiming
    -- the flag is down, so neither thread holds the claim
    have hflight : s.flight = none := by
      have hnone := hc.claiming.symm.trans hclaiming
      simp only [Bool.or_eq_false_iff, Option.isSome_eq_false_iff, Option.isNone_iff_eq_none]
        at hnone
      rw [St.flight, hnone.1, hnone.2]
      rfl
    rw [hflight] at hown
    rcases hown with hf | ⟨owner, hclient, -, hhwmon, hlive⟩
    · rw [hf.1, hf.2]
      simp
    have hclients := hlive hn
    refine ⟨by rw [hclient, hclients]; simp, ?_⟩
    intro client hmem
    obtain rfl : client = owner := by simpa [hclients] using hmem
    -- the transfer stands somewhere before the hwmon device on record
    obtain ⟨newer, older, hlog⟩ := List.append_of_mem hhwmon
    obtain ⟨result, hgood, htr⟩ := hproven.readFirst client older ⟨newer, hlog.symm⟩
    refine ⟨hclient, hhwmon, result, hgood, ?_⟩
    rw [hlog]
    exact List.mem_append_right _ (List.mem_cons_of_mem _ htr)
  · intro hexit
    obtain ⟨hworker, hpending⟩ := hc.quiet (hexit ▸ rfl)
    have hfree : s.flight = none ∧ s.sh.Free := by
      simpa only [Released, St.own, hexit] using hrel
    exact ⟨hfree.2.2, hpending, hworker⟩

/-- The condition leaves out no run but those with the defect: a step that does not
meet it is followed by the settling of its pass, which leaves the pointer on a
client that is gone. -/
theorem dangling_of_not_registersLive {s s' : St} {a : Action} (hbad : ¬ RegistersLive s a)
    (hstep : next P s a = some s') :
    ∃ t client, next P s' a = some t ∧ t.sh.notifier = true ∧ t.sh.astralClaiming = false ∧
      t.sh.astralClient = some client ∧ client ∉ t.sh.clients := by
  simp only [RegistersLive, not_forall] at hbad
  obtain ⟨⟨pc, env⟩, hact, client, hcompletes, hn, hclient, hgone⟩ := hbad
  obtain ⟨rfl, hfault⟩ : pc = .register client ∧ env.fault = none := by
    cases pc <;> simp_all [ClaimedPc.completes]
  -- either thread: the registration, then the settling, which spares the pointer
  cases a with
  | init env' =>
    obtain ⟨pc, hpc, heq⟩ := Option.map_eq_some_iff.mp hact
    obtain ⟨rfl, rfl⟩ := Prod.mk.inj heq
    obtain ⟨scan, hinit⟩ := InitPc.eq_of_claimed hpc
    simp only [next, hinit, InitPc.step, Pass.step, claimedStep, hfault] at hstep
    obtain rfl := Option.some.inj hstep
    exact ⟨_, client, rfl, hn, rfl, hclient, hgone⟩
  | worker env' =>
    obtain ⟨pc, hpc, heq⟩ := Option.map_eq_some_iff.mp hact
    obtain ⟨rfl, rfl⟩ := Prod.mk.inj heq
    obtain ⟨scan, hworker⟩ := WorkerPc.eq_of_claimed hpc
    simp only [next, hworker, WorkerPc.step, Pass.step, claimedStep, hfault] at hstep
    obtain rfl := Option.some.inj hstep
    exact ⟨_, client, rfl, hn, rfl, hclient, hgone⟩
  | _ => exact absurd hact (by simp [St.acting])

/-- A call that succeeds, on a bus where the idle card answers. -/
def Env.idle : Env := .ok (.block idleBlock)

/-- Loading on the machine with one card attaches its chip. -/
theorem astral_singleOwner_attached :
    ∃ s, ReachableBy (lifecycle oneCard) RegistersLive s ∧
      s.sh.clients = [⟨1, sensorAdapter 0 1, 0x2b⟩] ∧
      s.sh.astralClient = some ⟨1, sensorAdapter 0 1, 0x2b⟩ := by
  have hrun : (System.execBy (next oneCard) RegistersLive St.boot
      (addSensor ++ List.replicate 12 (.init .idle))).any
        (fun s => decide (s.sh.notifier = true ∧ s.sh.astralClaiming = false ∧
          s.sh.clients = [⟨1, sensorAdapter 0 1, 0x2b⟩])) = true := by
    decide +kernel
  obtain ⟨s, hexec, hn, hclaiming, hclients⟩ := System.any_decide_iff.mp hrun
  have hreach : ReachableBy (lifecycle oneCard) RegistersLive s :=
    System.execBy_reachableBy rfl hexec
  refine ⟨s, hreach, hclients, ?_⟩
  exact (((astral_singleOwner hreach).2.2.2.1 hn hclaiming).2 _ (by simp [hclients])).1

/-- **A removal before the publication leaves a dangling pointer.** The adapter
goes, and its client with it, after `i2c_new_client_device` has returned and
before the client is published; the chip answers, its hwmon device is registered,
and the pass settles with the pointer set and no client registered. -/
theorem astral_singleOwner_dangling :
    ∃ s, Reachable (lifecycle oneCard) s ∧ s.sh.notifier = true ∧
      s.sh.astralClaiming = false ∧
      ¬ (s.sh.astralClient.isSome = true ↔ s.sh.clients ≠ []) := by
  have hrun : (System.exec (next oneCard) St.boot
      (addSensor ++ List.replicate 6 (.init .idle) ++ [.removeAdapter (sensorAdapter 0 1)] ++
        List.replicate 5 (.init .idle))).any
        (fun s => decide (s.sh.notifier = true ∧ s.sh.astralClaiming = false ∧
          ¬ (s.sh.astralClient.isSome = true ↔ s.sh.clients ≠ []))) = true := by
    decide +kernel
  obtain ⟨s, hexec, hs⟩ := System.any_decide_iff.mp hrun
  exact ⟨s, System.exec_reachable rfl hexec, hs⟩

end Astral
