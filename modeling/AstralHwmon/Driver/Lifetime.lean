import AstralHwmon.Driver.Ownership

/-!
# How often a client is unregistered

A client the driver created leaves the bus in one of two ways: the i2c core
deletes it with its adapter, or the driver unregisters it — on the failure path of
the attach, or in `astral_exit`. `Accounts` keeps the books: the deletions and the
calls on record, and the client itself while it is registered, add up to its
creation. They balance as long as the driver only unregisters clients that are
still there.

It does not always. The driver learns of a deletion from the notifier, through the
pointer, so it misses one that lands before the client is published, or after the
notifier has gone; and the failure path compares the pointer to clear it but then
unregisters the client whatever the comparison said. Under `RemovalSeen`, that a
removal taking a client is one the driver hears of in time, and `FailsAlive`, that
no attach fails after its client was taken, every client leaves exactly once
(`astral_unregisteredOnce`). Each condition fails in a run that unregisters a
deleted client (`astral_unregisteredTwice`).
-/

open Transition

namespace Astral

variable {P : Setup}

/-- The adapter an action deletes. -/
def Action.removes : Action → Option I2cAdapter
  | .removeAdapter adap => some adap
  | _ => none

/-- A removal takes a client of the driver only when the notifier hears of it, the
pointer is on that client, and no pass is past looking at the pointer. -/
def RemovalSeen (s : St) (a : Action) : Prop :=
  ∀ adap ∈ a.removes, ∀ client ∈ s.sh.clients, client.adapter = adap →
    s.sh.notifier = true ∧ s.sh.astralClient = some client ∧
      s.flight ≠ some (.unpublish client)

/-- The client of the attach that a step of the pass makes fail. -/
def ClaimedPc.fails (env : Env) : ClaimedPc → Option I2cClient
  | .alloc client | .register client => if env.fault.isSome then some client else none
  | .refresh client => if env.io.transfer.Good then none else some client
  | _ => none

/-- An attach fails only while its client is registered. -/
def FailsAlive (s : St) (a : Action) : Prop :=
  ∀ act ∈ s.acting a, ∀ client ∈ act.1.fails act.2, client ∈ s.sh.clients

instance (s : St) (a : Action) : Decidable (RemovalSeen s a) :=
  inferInstanceAs (Decidable (∀ adap ∈ a.removes, _))

instance (s : St) (a : Action) : Decidable (FailsAlive s a) :=
  inferInstanceAs (Decidable (∀ act ∈ s.acting a, _))

/-- What the driver may still unregister is registered. -/
structure Intact (o : Own) : Prop where
  pointer : ∀ client, o.sh.astralClient = some client → o.exit ≠ .clear →
    client ∈ o.sh.clients
  held : ∀ client, o.flight = some (.publish client) ∨ o.flight = some (.unpublish client) ∨
    o.flight = some (.unregister client) → client ∈ o.sh.clients

/-! ### The books -/

/-- Deletions, calls of `i2c_unregister_device` and registered clients add up to
creations, and no client is created twice. -/
structure Accounts (sh : Shared) : Prop where
  balance : ∀ client, sh.log.count (.deleted client) + sh.log.count (.unregistered client) +
    sh.clients.count client = sh.log.count (.created client)
  fresh : ∀ client, .created client ∈ sh.log → client.obj < sh.nextObj
  once : ∀ client, sh.log.count (.created client) ≤ 1

/-- Events that are no concern of the books. -/
def Event.neutral : Event → Bool
  | .created _ | .deleted _ | .unregistered _ => false
  | _ => true

theorem Accounts.keep {sh sh' : Shared} (h : Accounts sh) (hclients : sh'.clients = sh.clients)
    (hnext : sh.nextObj ≤ sh'.nextObj) (hlog : sh'.log = sh.log) : Accounts sh' := by
  refine ⟨?_, ?_, ?_⟩
  · rw [hclients, hlog]
    exact h.balance
  · rw [hlog]
    exact fun client hmem => (h.fresh client hmem).trans_le hnext
  · rw [hlog]
    exact h.once

theorem Accounts.note {sh sh' : Shared} {e : Event} (h : Accounts sh)
    (he : e.neutral = true) (hclients : sh'.clients = sh.clients)
    (hnext : sh'.nextObj = sh.nextObj) (hlog : sh'.log = e :: sh.log) : Accounts sh' := by
  have hne (client : I2cClient) :
      e ≠ .created client ∧ e ≠ .deleted client ∧ e ≠ .unregistered client := by
    refine ⟨?_, ?_, ?_⟩ <;> rintro rfl <;> simp [Event.neutral] at he
  refine ⟨?_, ?_, ?_⟩
  · intro client
    obtain ⟨hc, hd, hu⟩ := hne client
    rw [hclients, hlog, List.count_cons_of_ne hc, List.count_cons_of_ne hd,
      List.count_cons_of_ne hu]
    exact h.balance client
  · intro client hmem
    rw [hlog] at hmem
    rw [hnext]
    exact h.fresh client ((List.mem_cons.mp hmem).resolve_left (hne client).1.symm)
  · intro client
    rw [hlog, List.count_cons_of_ne (hne client).1]
    exact h.once client

/-- A registered client leaves the bus, either way. -/
theorem Accounts.dispose {sh sh' : Shared} {e : Event} {client : I2cClient} (h : Accounts sh)
    (hmem : client ∈ sh.clients) (he : e = .deleted client ∨ e = .unregistered client)
    (hclients : sh'.clients = sh.clients.erase client) (hnext : sh'.nextObj = sh.nextObj)
    (hlog : sh'.log = e :: sh.log) : Accounts sh' := by
  have hcreated (c : I2cClient) : e ≠ .created c := by rcases he with rfl | rfl <;> simp
  refine ⟨?_, ?_, ?_⟩
  · intro c
    have hbal := h.balance c
    rw [hclients, hlog, List.count_cons_of_ne (hcreated c)]
    by_cases hc : c = client
    -- one entry moves from the list to the record
    · subst hc
      have hpos : 0 < sh.clients.count c := List.count_pos_iff.mpr hmem
      rw [List.count_erase_self]
      rcases he with rfl | rfl
      · rw [List.count_cons_self, List.count_cons_of_ne (by simp)]
        omega
      · rw [List.count_cons_self, List.count_cons_of_ne (by simp)]
        omega
    · rw [List.count_erase_of_ne hc]
      rcases he with rfl | rfl
      · rw [List.count_cons_of_ne (by simpa using Ne.symm hc), List.count_cons_of_ne (by simp)]
        exact hbal
      · rw [List.count_cons_of_ne (by simp), List.count_cons_of_ne (by simpa using Ne.symm hc)]
        exact hbal
  -- nothing is created, so no object is new and none comes twice
  · intro c hc
    rw [hlog] at hc
    rw [hnext]
    exact h.fresh c ((List.mem_cons.mp hc).resolve_left (hcreated c).symm)
  · intro c
    rw [hlog, List.count_cons_of_ne (hcreated c)]
    exact h.once c

/-- A new client is a new object. -/
theorem Accounts.create {sh sh' : Shared} {client : I2cClient} (h : Accounts sh)
    (hobj : client.obj = sh.nextObj) (hclients : sh'.clients = client :: sh.clients)
    (hnext : sh'.nextObj = sh.nextObj + 1) (hlog : sh'.log = .created client :: sh.log) :
    Accounts sh' := by
  -- everything on record is an older object
  have hnew : .created client ∉ sh.log := by
    intro hmem
    exact absurd (h.fresh client hmem) (by simp [hobj])
  refine ⟨?_, ?_, ?_⟩
  · intro c
    have hbal := h.balance c
    rw [hclients, hlog, List.count_cons_of_ne (by simp), List.count_cons_of_ne (by simp)]
    by_cases hc : client = c
    · subst hc
      rw [List.count_cons_self, List.count_cons_self]
      omega
    · rw [List.count_cons_of_ne hc, List.count_cons_of_ne (by simpa using hc)]
      exact hbal
  -- the new object is the last one given out
  · intro c hc
    rw [hlog] at hc
    rw [hnext]
    rcases List.mem_cons.mp hc with heq | hc
    · obtain rfl := Event.created.inj heq
      omega
    · exact (h.fresh c hc).trans (Nat.lt_succ_self _)
  · intro c
    rw [hlog]
    by_cases hc : client = c
    · subst hc
      rw [List.count_cons_self, List.count_eq_zero_of_not_mem hnew]
    · rw [List.count_cons_of_ne (by simpa using hc)]
      exact h.once c

/-! ### Steps -/

theorem Owned.clients_cases {sh : Shared} {flight : Option ClaimedPc} (h : Owned sh flight) :
    sh.clients = [] ∨ ∃ client, sh.clients = [client] := by
  have hlen := h.length_le
  match hclients : sh.clients with
  | [] => exact Or.inl rfl
  | [client] => exact Or.inr ⟨client, rfl⟩
  | _ :: _ :: _ => simp [hclients] at hlen

/-- A pass that holds a client the pointer does not name has none the pointer
names. -/
theorem Owned.pointer_of_held {sh : Shared} {flight : Option ClaimedPc} {client owner : I2cClient}
    (h : Owned sh flight) (howner : sh.astralClient = some owner)
    (hheld : flight = some (.publish client) ∨ flight = some (.unpublish client) ∨
      flight = some (.unregister client)) : flight = some (.unpublish owner) := by
  rcases hheld with rfl | rfl | rfl
  -- before the publication and after the unpublication the pointer is clear
  · exact absurd (h.1.symm.trans howner) (by simp)
  · rcases h with ⟨hclient, -⟩ | hf
    · rw [Option.some.inj (hclient.symm.trans howner)]
    · exact absurd (hf.1.symm.trans howner) (by simp)
  · exact absurd (h.1.symm.trans howner) (by simp)

theorem Intact.keep {o o' : Own} (h : Intact o)
    (hptr : ∀ client, o'.sh.astralClient = some client → o'.exit ≠ .clear →
      o.sh.astralClient = some client ∧ o.exit ≠ .clear)
    (hclients : o'.sh.clients = o.sh.clients) (hflight : o'.flight = o.flight) : Intact o' := by
  refine ⟨?_, ?_⟩
  · intro client hclient hexit
    obtain ⟨hclient, hexit⟩ := hptr client hclient hexit
    rw [hclients]
    exact h.pointer client hclient hexit
  · rw [hclients, hflight]
    exact h.held

/-- A step that leaves alone all that is in question. -/
theorem Intact.congr {o o' : Own} (h : Intact o) (hptr : o'.sh.astralClient = o.sh.astralClient)
    (hexit : o'.exit = o.exit) (hclients : o'.sh.clients = o.sh.clients)
    (hflight : o'.flight = o.flight) : Intact o' := by
  refine h.keep (fun client hclient hclear => ?_) hclients hflight
  exact ⟨hptr.symm.trans hclient, hexit ▸ hclear⟩

theorem Intact.removeAdapter {s : St} {adap : I2cAdapter} (h : Intact s.own)
    (ha : Accounts s.sh) (hown : Owned s.sh s.flight)
    (hseen : RemovalSeen s (.removeAdapter adap)) :
    Intact { s.own with sh := s.sh.delAdapter adap } ∧ Accounts (s.sh.delAdapter adap) := by
  -- a removal that takes no client changes nothing here
  have hkeep (heq : s.sh.delAdapter adap = { s.sh with adapters := s.sh.adapters.erase adap }) :
      Intact { s.own with sh := s.sh.delAdapter adap } ∧ Accounts (s.sh.delAdapter adap) := by
    rw [heq]
    exact ⟨h.congr rfl rfl rfl rfl, ha.keep rfl le_rfl rfl⟩
  -- there is one client at most, and it goes or stays
  rcases hown.clients_cases with hnil | ⟨client, hclients⟩
  · exact hkeep (Shared.delAdapter_nil adap hnil)
  by_cases hon : client.adapter = adap
  · -- seen by the driver: the pointer is cleared with the client
    obtain ⟨hn, hptr, hflight⟩ := hseen adap rfl client (by simp [hclients]) hon
    rw [Shared.delAdapter_only hclients hon]
    refine ⟨⟨?_, ?_⟩, ?_⟩
    · intro c hc
      exact absurd hc (by simp [hn, hptr])
    · intro c hc
      exact absurd (hown.pointer_of_held hptr hc) hflight
    · have hmem : client ∈ s.sh.clients := by simp [hclients]
      refine ha.dispose hmem (Or.inl rfl) ?_ rfl rfl
      simp [hclients]
  · exact hkeep (Shared.delAdapter_other hclients hon)

theorem Intact.core {s : St} {a : Action} {sh' : Shared} (h : Intact s.own)
    (ha : Accounts s.sh) (hown : Owned s.sh s.flight) (hseen : RemovalSeen s a)
    (hstep : CoreStep P s.sh a sh') : Intact { s.own with sh := sh' } ∧ Accounts sh' := by
  cases hstep with
  | removeAdapter => exact h.removeAdapter ha hown hseen
  | addAdapter =>
    exact ⟨h.congr rfl rfl rfl rfl,
      ha.keep rfl (Nat.le_succ _) rfl⟩
  | hwmonRead =>
    exact ⟨h.congr rfl rfl rfl rfl, ha.note rfl rfl rfl rfl⟩
  | notifyIgnored | notifyAdd | rearm =>
    exact ⟨h.congr rfl rfl rfl rfl, ha.keep rfl le_rfl rfl⟩

/-- The pass in flight: it creates one client, and gives up only a client that is
registered. -/
theorem Intact.pass {o : Own} {env : Env} {pc : ClaimedPc} {sh' : Shared}
    {pc' : Option ClaimedPc} (h : Intact o) (ha : Accounts o.sh) (hown : Owned o.sh o.flight)
    (hpc : o.flight = some pc) (hexit : o.exit ≠ .clear)
    (halive : ∀ client, pc' = some (.unpublish client) → client ∈ o.sh.clients)
    (hstep : ClaimedStep P o.sh env pc sh' pc') :
    Intact { o with sh := sh', flight := pc' } ∧ Accounts sh' := by
  have hptr (client : I2cClient) (hclient : o.sh.astralClient = some client) :
      client ∈ o.sh.clients := h.pointer client hclient hexit
  rw [hpc] at hown
  cases hstep with
  | walk | found | notFound | notCreated =>
    exact ⟨⟨fun c hc _ => hptr c hc, by simp⟩, ha.keep rfl le_rfl rfl⟩
  | create =>
    refine ⟨⟨?_, ?_⟩, ha.create rfl rfl rfl rfl⟩
    · intro c hc
      exact absurd (hown.1.symm.trans hc) (by simp)
    · rintro c (hc | hc | hc) <;> simp at hc
      exact hc ▸ List.mem_cons_self
  | @publish client =>
    -- no removal has taken it since its creation
    have hmem : client ∈ o.sh.clients := h.held client (Or.inl hpc)
    refine ⟨⟨?_, by simp⟩, ha.keep rfl le_rfl rfl⟩
    rintro c ⟨⟩ -
    exact hmem
  | alloc | settled => exact ⟨⟨fun c hc _ => hptr c hc, by simp⟩, ha.keep rfl le_rfl rfl⟩
  -- the turn to the failure path is where the client might be gone
  | allocFail | registerFail =>
    refine ⟨⟨fun c hc _ => hptr c hc, ?_⟩, ha.keep rfl le_rfl rfl⟩
    rintro c (hc | hc | hc) <;> simp at hc
    exact halive c (by rw [hc])
  | read | register | failed =>
    exact ⟨⟨fun c hc _ => hptr c hc, by simp⟩, ha.note rfl rfl rfl rfl⟩
  | readFail =>
    refine ⟨⟨fun c hc _ => hptr c hc, ?_⟩, ha.note rfl rfl rfl rfl⟩
    rintro c (hc | hc | hc) <;> simp at hc
    exact halive c (by rw [hc])
  | @unpublish client =>
    have hmem : client ∈ o.sh.clients := h.held client (Or.inr (Or.inl hpc))
    refine ⟨⟨by simp, ?_⟩, ha.keep rfl le_rfl rfl⟩
    rintro c (hc | hc | hc) <;> simp at hc
    exact hc ▸ hmem
  | @unpublished client =>
    have hmem : client ∈ o.sh.clients := h.held client (Or.inr (Or.inl hpc))
    refine ⟨⟨fun c hc _ => hptr c hc, ?_⟩, ha.keep rfl le_rfl rfl⟩
    rintro c (hc | hc | hc) <;> simp at hc
    exact hc ▸ hmem
  | @unregister client =>
    have hmem : client ∈ o.sh.clients := h.held client (Or.inr (Or.inr hpc))
    rw [Shared.i2cUnregisterDevice_eq]
    refine ⟨⟨?_, by simp⟩, ha.dispose hmem (Or.inr rfl) rfl rfl rfl⟩
    intro c hc
    exact absurd hc (by simp [hown.1])

/-- A pass turns to its failure path with its client registered. -/
theorem FailsAlive.unpublish {s : St} {a : Action} {env : Env} {pc : ClaimedPc} {sh' : Shared}
    {pc' : Option ClaimedPc} (hok : FailsAlive s a) (hact : s.acting a = some (pc, env))
    (hstep : ClaimedStep P s.sh env pc sh' pc') {client : I2cClient}
    (hpc' : pc' = some (.unpublish client)) : client ∈ s.sh.clients := by
  refine hok _ hact client ?_
  cases hstep with
  | allocFail hfault | registerFail hfault => simpa [ClaimedPc.fails, hfault] using hpc'
  | readFail hbad => simpa [ClaimedPc.fails, hbad] using hpc'
  | _ => exact absurd hpc' (by simp)

theorem Intact.registersLive {s : St} {a : Action} (h : Intact s.own)
    (hexit : ∀ pc env, s.acting a = some (pc, env) → s.exit ≠ .clear) : RegistersLive s a := by
  rintro ⟨pc, env⟩ hact client - - hclient
  exact h.pointer client hclient (hexit pc env hact)

theorem Intact.move {s : St} {a : Action} {o : Own} (h : Intact s.own) (ha : Accounts s.sh)
    (hown : Owned s.sh s.flight) (hrel : Released s.own) (hseen : RemovalSeen s a)
    (halive : FailsAlive s a) (hmove : Move P s.own a (s.acting a) o) :
    Intact o ∧ Accounts o.sh := by
  generalize hact : s.acting a = act at hmove
  cases hmove with
  | core hstep => exact h.core ha hown hseen hstep
  | @pass env pc sh' pc' hflight hexit hstep =>
    refine h.pass ha hown hflight ?_ (fun client hpc' => halive.unpublish hact hstep hpc') hstep
    intro hclear
    simp [hclear, ExitPc.quiet] at hexit
  -- the thread moves on, and `astral_exit` has not cleared the pointer before or after
  | control hexit =>
    refine ⟨h.keep ?_ rfl rfl, ha.keep rfl le_rfl rfl⟩
    intro client hclient hclear
    refine ⟨hclient, ?_⟩
    rcases hexit with rfl | ⟨hexit, -⟩
    · exact hclear
    · intro hold
      simp [hold, ExitPc.undecided] at hexit
  | load => exact ⟨h.congr rfl rfl rfl rfl, ha.keep rfl le_rfl rfl⟩
  | unload hexit =>
    refine ⟨h.keep (fun _ hclient _ => ⟨hclient, ?_⟩) rfl rfl, ha.keep rfl le_rfl rfl⟩
    simp [hexit]
  -- a pass claims only when there is no client to keep
  | claim hflight hexit hclient =>
    refine ⟨⟨fun client hold _ => ?_, by simp⟩, ha.keep rfl le_rfl rfl⟩
    exact absurd (hclient.symm.trans hold) (by simp)
  | release hflight hn hexit =>
    refine ⟨h.keep (fun _ hclient _ => ⟨hclient, ?_⟩) rfl rfl, ha.keep rfl le_rfl rfl⟩
    simp [hexit]
  | nothingToRelease hflight hexit hclient =>
    refine ⟨h.keep (fun _ hold _ => ?_) rfl rfl, ha.keep rfl le_rfl rfl⟩
    exact absurd (hclient.symm.trans hold) (by simp)
  -- the one release: the client was registered, and it is accounted for
  | @unregister client hflight hn hexit =>
    rw [Released, hexit] at hrel
    have hmem : client ∈ s.sh.clients := h.pointer client hrel.2.2 (by simp [hexit])
    rw [Shared.i2cUnregisterDevice_eq]
    refine ⟨⟨fun _ _ hclear => absurd rfl hclear, ?_⟩, ha.dispose hmem (Or.inr rfl) rfl rfl rfl⟩
    intro c hheld
    exact absurd hheld (by simp [hflight])
  | clear hflight hexit =>
    refine ⟨⟨by simp, ?_⟩, ha.keep rfl le_rfl rfl⟩
    intro c hheld
    exact absurd hheld (by simp [hflight])

/-! ### Exactly once -/

theorem accounts_reachable {s : St}
    (h : ReachableBy (lifecycle P) (fun s a => RemovalSeen s a ∧ FailsAlive s a) s) :
    (Owned s.sh s.flight ∧ Released s.own) ∧ Intact s.own ∧ Accounts s.sh := by
  refine own_invariant
    (I := fun o => (Owned o.sh o.flight ∧ Released o) ∧ Intact o ∧ Accounts o.sh) ?_ ?_ h
  · refine ⟨⟨Or.inl ⟨rfl, rfl⟩, trivial⟩, ⟨?_, ?_⟩, ⟨?_, ?_, ?_⟩⟩ <;>
      simp [St.own, St.boot, St.flight, InitPc.claimed, WorkerPc.claimed]
  · rintro s a o hc ⟨⟨hown, hrel⟩, hint, hacc⟩ ⟨hseen, halive⟩ hmove
    -- an intact pointer is all a successful attach needs
    have hlive : RegistersLive s a := by
      refine hint.registersLive fun pc env hact hclear => ?_
      have hquiet := hc.quiet (hclear ▸ rfl)
      have hinit := hc.exiting (by simp [hclear])
      cases a <;> simp [St.acting, hinit, hquiet.1, InitPc.claimed, WorkerPc.claimed] at hact
    exact ⟨⟨hown.move hrel hlive hmove, hrel.move hown hmove⟩,
      hint.move hacc hown hrel hseen halive hmove⟩

/-- **Each client is unregistered exactly once.** In every state reached by steps
that meet the two conditions, a client the driver created is registered still, or
was deleted by the core once, or unregistered by the driver once, and only one of
the three; no client is both deleted and unregistered; and when `astral_exit` has
returned, every client has left. -/
theorem astral_unregisteredOnce {s : St}
    (h : ReachableBy (lifecycle P) (fun s a => RemovalSeen s a ∧ FailsAlive s a) s)
    (client : I2cClient) (hcreated : .created client ∈ s.sh.log) :
    s.sh.log.count (.deleted client) + s.sh.log.count (.unregistered client) +
        (if client ∈ s.sh.clients then 1 else 0) = 1 ∧
      ¬ (.deleted client ∈ s.sh.log ∧ .unregistered client ∈ s.sh.log) ∧
      (s.exit = .done →
        s.sh.log.count (.deleted client) + s.sh.log.count (.unregistered client) = 1) := by
  obtain ⟨⟨hown, hrel⟩, -, hacc⟩ := accounts_reachable h
  have hbal := hacc.balance client
  have hone : s.sh.log.count (.created client) = 1 :=
    le_antisymm (hacc.once client) (List.count_pos_iff.mpr hcreated)
  -- the list holds no client twice, being one client at most
  have hcount : s.sh.clients.count client = if client ∈ s.sh.clients then 1 else 0 := by
    rcases hown.clients_cases with hnil | ⟨owner, howner⟩
    · simp [hnil]
    · by_cases heq : owner = client
      · simp [howner, heq]
      · simp [howner, heq, Ne.symm heq]
  -- created once, and what is created is on the list or gone, in one way
  refine ⟨by omega, ?_, ?_⟩
  · rintro ⟨hdel, hunreg⟩
    have hd := List.count_pos_iff.mpr hdel
    have hu := List.count_pos_iff.mpr hunreg
    omega
  · intro hexit
    have hnil : s.sh.clients = [] := by
      have hfree : s.flight = none ∧ s.sh.Free := by
        simpa only [Released, St.own, hexit] using hrel
      exact hfree.2.2
    simp only [hnil, List.count_nil] at hbal
    omega

/-- Loading, attaching and unloading on the machine with one card: the client is
unregistered, once. -/
theorem astral_unregisteredOnce_unload :
    ∃ s, ReachableBy (lifecycle oneCard) (fun s a => RemovalSeen s a ∧ FailsAlive s a) s ∧
      s.exit = .done ∧
      s.sh.log.count (.deleted ⟨1, sensorAdapter 0 1, 0x2b⟩) +
        s.sh.log.count (.unregistered ⟨1, sensorAdapter 0 1, 0x2b⟩) = 1 := by
  have hrun : (System.execBy (next oneCard) (fun s a => RemovalSeen s a ∧ FailsAlive s a) St.boot
      (addSensor ++ List.replicate 13 (.init .idle) ++ [.exitStart] ++
        List.replicate 6 .exit)).any
        (fun s => decide (s.exit = .done ∧
          .created ⟨1, sensorAdapter 0 1, 0x2b⟩ ∈ s.sh.log)) = true := by
    decide +kernel
  obtain ⟨s, hexec, hexit, hcreated⟩ := System.any_decide_iff.mp hrun
  have hreach : ReachableBy (lifecycle oneCard) (fun s a => RemovalSeen s a ∧ FailsAlive s a) s :=
    System.execBy_reachableBy rfl hexec
  exact ⟨s, hreach, hexit, (astral_unregisteredOnce hreach _ hcreated).2.2 hexit⟩

/-- **A client the core has deleted is unregistered again**: in a failing attach,
when the adapter goes while the pass waits for the chip; and in `astral_exit`,
when it goes after the notifier has. -/
theorem astral_unregisteredTwice :
    (∃ s client, Reachable (lifecycle oneCard) s ∧ s.exit = .idle ∧
      .deleted client ∈ s.sh.log ∧ .unregistered client ∈ s.sh.log) ∧
    ∃ s client, Reachable (lifecycle oneCard) s ∧ s.exit = .done ∧
      .deleted client ∈ s.sh.log ∧ .unregistered client ∈ s.sh.log := by
  -- removed before `astral_attach` allocates, which then fails and unregisters it again
  have hattach : (System.exec (next oneCard) St.boot
      (addSensor ++ List.replicate 8 (.init .idle) ++ [.removeAdapter (sensorAdapter 0 1)] ++
        List.replicate 3 (.init .refused))).any
        (fun s => decide (s.exit = .idle ∧ .deleted ⟨1, sensorAdapter 0 1, 0x2b⟩ ∈ s.sh.log ∧
          .unregistered ⟨1, sensorAdapter 0 1, 0x2b⟩ ∈ s.sh.log)) = true := by
    decide +kernel
  -- removed once `astral_exit` has taken the notifier off, which leaves the pointer dangling
  have hexit : (System.exec (next oneCard) St.boot
      (addSensor ++ List.replicate 13 (.init .idle) ++ [.exitStart, .exit] ++
        [.removeAdapter (sensorAdapter 0 1)] ++ List.replicate 5 .exit)).any
        (fun s => decide (s.exit = .done ∧ .deleted ⟨1, sensorAdapter 0 1, 0x2b⟩ ∈ s.sh.log ∧
          .unregistered ⟨1, sensorAdapter 0 1, 0x2b⟩ ∈ s.sh.log)) = true := by
    decide +kernel
  obtain ⟨s, hexec, hs⟩ := System.any_decide_iff.mp hattach
  obtain ⟨t, hexec', ht⟩ := System.any_decide_iff.mp hexit
  exact ⟨⟨s, _, System.exec_reachable rfl hexec, hs⟩,
    ⟨t, _, System.exec_reachable rfl hexec', ht⟩⟩

end Astral
