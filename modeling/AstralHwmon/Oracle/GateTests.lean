import AstralHwmon.Driver.Attach
import AstralHwmon.Driver.BusGate
import AstralHwmon.Driver.Ownership
import AstralHwmon.Oracle.Search

/-!
# The gate on the buses the oracle finds

`tests/hardware/test_gate.py` loads the driver with `bus=` set to a number that the oracle's
walks found, and looks whether sensors appear. Here the driver runs on a machine whose
adapters are those of a `Board`, which may appear and disappear at any moment, and the oracle
has walked a sysfs that shows the board.

What a run does to the history is traced back to where it comes from (`Move.news`): a client
to an adapter that was registered, a transfer to the pass or the read that made it. From
there, in every run on the board: with a foreign adapter's number the driver creates no
client, whatever `allow_unknown` says (`astral_foreign_untouched`); with the number of an
adapter of the card without the chip it registers no sensors (`astral_chipless_declined`);
and on its default it is on the bus that the oracle finds (`astral_onFoundBus`).
-/

open Transition CText

namespace Astral

variable {P : Setup}

/-! ### Where things come from -/

/-- What an event of a move comes from. -/
def Event.From (o : Own) (a : Action) (act : Option (ClaimedPc × Env)) : Event → Prop
  | .created client => o.flight = some (.gate client.adapter)
  | .transfer client result =>
    (∃ env, act = some (.refresh client, env) ∧ env.io.transfer = result) ∨
      a = .hwmonRead client result
  | _ => True

/-- The events of a move, and what each comes from. -/
theorem Move.news {o o' : Own} {a : Action} {act : Option (ClaimedPc × Env)}
    (h : Move P o a act o') :
    ∃ new, o'.sh.log = new ++ o.sh.log ∧ ∀ e ∈ new, e.From o a act := by
  cases h with
  | core hstep =>
    cases hstep with
    | removeAdapter =>
      -- a removal records deletions only
      obtain ⟨clients, client, gone, heq, -, -, hgone⟩ := o.sh.delAdapter_spec _
      refine ⟨gone, by rw [heq], fun e he => ?_⟩
      obtain ⟨c, -, rfl⟩ := hgone e he
      trivial
    | @hwmonRead client result =>
      exact ⟨[.transfer client result], rfl, List.forall_mem_singleton.mpr (Or.inr rfl)⟩
    | addAdapter | notifyIgnored | notifyAdd | rearm => exact ⟨[], rfl, by simp⟩
  | @pass env pc _ _ hpc _ hstep =>
    cases hstep with
    | @create adap =>
      exact ⟨[.created ⟨o.sh.nextObj, adap, P.addr⟩], rfl, List.forall_mem_singleton.mpr hpc⟩
    | @read client | @readFail client =>
      exact ⟨[.transfer client env.io.transfer], rfl,
        List.forall_mem_singleton.mpr (Or.inl ⟨env, rfl, rfl⟩)⟩
    | @register client => exact ⟨[.hwmon client], rfl, List.forall_mem_singleton.mpr trivial⟩
    | @unregister client =>
      rw [Shared.i2cUnregisterDevice_eq]
      exact ⟨[.unregistered client], rfl, List.forall_mem_singleton.mpr trivial⟩
    | failed => exact ⟨[.passFailed], rfl, List.forall_mem_singleton.mpr trivial⟩
    | walk | found | notFound | notCreated | publish | alloc | allocFail | registerFail
    | unpublish | unpublished | settled => exact ⟨[], rfl, by simp⟩
  | @unregister client =>
    rw [Shared.i2cUnregisterDevice_eq]
    exact ⟨[.unregistered client], rfl, List.forall_mem_singleton.mpr trivial⟩
  | control | load | unload | claim | release | nothingToRelease | clear =>
    exact ⟨[], rfl, by simp⟩

/-- An adapter that is registered after a move was so before, or the move adds it. -/
theorem Move.adapters {o o' : Own} {a : Action} {act : Option (ClaimedPc × Env)}
    (h : Move P o a act o') {adap : I2cAdapter} (hadap : adap ∈ o'.sh.adapters) :
    adap ∈ o.sh.adapters ∨ a = .addAdapter adap.nr adap.name adap.parent := by
  -- only the machine registers adapters, and never any other way
  cases h with
  | core hstep =>
    cases hstep with
    | addAdapter =>
      refine (List.mem_append.mp hadap).imp_right fun hnew => ?_
      rw [List.mem_singleton.mp hnew]
    | @removeAdapter gone =>
      obtain ⟨clients, client, new, heq, -⟩ := o.sh.delAdapter_spec gone
      rw [heq] at hadap
      exact Or.inl (List.erase_subset hadap)
    | notifyIgnored | notifyAdd | rearm | hwmonRead => exact Or.inl hadap
  | pass _ _ hstep => exact Or.inl (hstep.adapters ▸ hadap)
  | unregister =>
    rw [Shared.i2cUnregisterDevice_eq] at hadap
    exact Or.inl hadap
  | control | load | unload | claim | release | nothingToRelease | clear => exact Or.inl hadap

/-- The adapter at the gate was at the gate, or is a registered one. -/
theorem Move.gate {o o' : Own} {a : Action} {act : Option (ClaimedPc × Env)}
    (h : Move P o a act o') {adap : I2cAdapter} (hgate : o'.flight = some (.gate adap)) :
    o.flight = some (.gate adap) ∨ adap ∈ o.sh.adapters := by
  cases h with
  | pass hpc _ hstep =>
    cases hstep with
    -- the lookup by number yields a registered adapter
    | found hadap =>
      cases hgate
      exact Or.inr hadap
    | _ => exact absurd hgate (by simp)
  | claim => exact absurd hgate (by simp)
  | core | control | load | unload | release | nothingToRelease | unregister | clear =>
    exact Or.inl hgate

/-! ### A machine whose adapters are a board's -/

namespace Oracle

/-- An adapter of the board, whatever object it is. -/
def OnBoard (b : Board) (adap : I2cAdapter) : Prop :=
  ∃ adap' ∈ b.adapters,
    adap'.nr = adap.nr ∧ adap'.name = adap.name ∧ adap'.parent = adap.parent

instance (b : Board) : DecidablePred (OnBoard b) := fun _ =>
  inferInstanceAs (Decidable (∃ adap' ∈ b.adapters, _))

/-- The machine registers adapters of the board only. -/
def Board.Registers (b : Board) (_ : St) : Action → Prop
  | .addAdapter nr name parent => OnBoard b ⟨0, nr, name, parent⟩
  | _ => True

instance (b : Board) (s : St) (a : Action) : Decidable (b.Registers s a) :=
  match a with
  | .addAdapter nr name parent => inferInstanceAs (Decidable (OnBoard b ⟨0, nr, name, parent⟩))
  | .notifyAdd _ | .rearm | .removeAdapter _ | .hwmonRead .. | .init _ | .workerStart | .worker _
  | .exitStart | .exit => .isTrue trivial

/-- Every adapter in sight is the board's. -/
structure Board.Holds (b : Board) (o : Own) : Prop where
  adapters : ∀ adap ∈ o.sh.adapters, OnBoard b adap
  gate : ∀ adap, o.flight = some (.gate adap) → OnBoard b adap
  created : ∀ client, .created client ∈ o.sh.log → OnBoard b client.adapter

theorem Board.Holds.move {b : Board} {s : St} {o : Own} {a : Action}
    {act : Option (ClaimedPc × Env)} (h : b.Holds s.own) (hok : b.Registers s a)
    (hmove : Move P s.own a act o) : b.Holds o := by
  refine ⟨fun adap hadap => ?_, fun adap hgate => ?_, fun client hclient => ?_⟩
  · rcases hmove.adapters hadap with hadap | rfl
    · exact h.adapters adap hadap
    · exact hok
  · rcases hmove.gate hgate with hgate | hadap
    · exact h.gate adap hgate
    · exact h.adapters adap hadap
  · obtain ⟨new, hlog, hnew⟩ := hmove.news
    rw [hlog] at hclient
    rcases List.mem_append.mp hclient with hclient | hclient
    · exact h.gate client.adapter (hnew _ hclient)
    · exact h.created client hclient

/-- In a run on the board, the driver is on the board's adapters. -/
theorem Board.holds_reachable {b : Board} {s : St}
    (h : ReachableBy (lifecycle P) b.Registers s) : b.Holds s.own := by
  refine own_invariant ⟨?_, ?_, ?_⟩ (fun s a o _ hI hok hmove => hI.move hok hmove) h
  · simp [St.own, St.boot]
  · simp [St.own, St.boot, St.flight, InitPc.claimed, WorkerPc.claimed]
  · simp [St.own, St.boot]

/-! ### What is left of a run -/

theorem gated_reachable {s : St} (h : Reachable (lifecycle P) s) : Gated P s.own := by
  refine own_invariant_reachable ⟨?_, ?_, ?_, ?_⟩ (fun s a o hI hmove => hI.move hmove) h
  · simp [St.own, St.boot]
  · simp [St.own, St.boot, St.flight, InitPc.claimed, WorkerPc.claimed]
  · simp [St.own, St.boot]
  · simp [St.own, St.boot]

/-- Sensors are registered after a good transfer. -/
theorem transfer_of_hwmon {s : St} (h : Reachable (lifecycle P) s) {client : I2cClient}
    (hmem : .hwmon client ∈ s.sh.log) :
    ∃ result, result.Good ∧ .transfer client result ∈ s.sh.log := by
  obtain ⟨newer, older, hlog⟩ := List.append_of_mem hmem
  have hsuffix : .hwmon client :: older <:+ s.sh.log := hlog ▸ List.suffix_append _ _
  obtain ⟨result, hgood, htransfer⟩ := (proven_reachable h).readFirst client older hsuffix
  exact ⟨result, hgood, hsuffix.mem (List.mem_cons_of_mem _ htransfer)⟩

variable {b : Board} {W : Type*} {host : Host W} {sysfsRoot : CStr} {w : W}

/-- On the board, with `bus=` a number of its, a client is on the adapter of that number, and
that is the vendor's. -/
theorem Board.created_onBus {s : St} {n : ℕ} (hbus : P.bus = n)
    (h : ReachableBy (lifecycle P) b.Registers s) {client : I2cClient}
    (hclient : .created client ∈ s.sh.log) :
    client.adapter.nr = n ∧ ∃ adap ∈ b.adapters, adap.nr = n ∧ OnNvidia adap := by
  obtain ⟨⟨pdev, hparent, hvendor, -⟩, hnr, -⟩ :=
    (gated_reachable h.reachable).created client hclient
  have hn : client.adapter.nr = n := by
    have := hnr (hbus ▸ Int.natCast_nonneg n)
    omega
  obtain ⟨adap, hadap, hsame, -, hsameParent⟩ := (b.holds_reachable h).created client hclient
  exact ⟨hn, adap, hadap, hsame.trans hn, pdev, hsameParent.trans hparent, hvendor⟩

/-- **`bus=` cannot leave the card.** With the number of an adapter that the oracle finds to
be on no device of the vendor, the driver creates no client, makes no transfer and registers
no sensors, in every run on the board and whether unknown cards are allowed or not. -/
theorem astral_foreign_untouched (hshown : b.ShownBy host sysfsRoot) {n : ℕ}
    (hforeign : (findForeignAdapter host sysfsRoot w).1 = some n) (hbus : P.bus = n) {s : St}
    (h : ReachableBy (lifecycle P) b.Registers s) :
    (∀ client, .created client ∉ s.sh.log) ∧ (∀ client result, .transfer client result ∉ s.sh.log) ∧
      ∀ client, .hwmon client ∉ s.sh.log := by
  have hcreated : ∀ client, .created client ∉ s.sh.log := by
    intro client hclient
    obtain ⟨-, adap, hadap, hnr, hnvidia⟩ := b.created_onBus hbus h hclient
    obtain ⟨⟨adap', hadap', hnot, hnr'⟩, -⟩ := (findForeignAdapter_eq_some_iff hshown w).mp hforeign
    exact hnot (b.eq_of_nr hadap hadap' (hnr.trans hnr'.symm) ▸ hnvidia)
  have htransfer : ∀ client result, .transfer client result ∉ s.sh.log := fun client result hmem =>
    hcreated client ((gated_reachable h.reachable).transfer client result hmem)
  refine ⟨hcreated, htransfer, fun client hmem => ?_⟩
  obtain ⟨result, -, hmem⟩ := transfer_of_hwmon h.reachable hmem
  exact htransfer client result hmem

/-- A driver with its default parameters but for `bus=`. -/
def onBus (bus : ℤ) : Setup := { oneCard with bus := bus }

/-- The card's adapter without the chip. -/
def otherAdapter : I2cAdapter :=
  ⟨0, 3, "NVIDIA i2c adapter 0 at 1:00.0".toList, some (.pci ⟨0x10de, 0x1043, 0x89e3⟩)⟩

/-- The machine with one card registers its adapters. -/
def addBoard : List Action :=
  cardBoard.adapters.map fun adap => .addAdapter adap.nr adap.name adap.parent

/-- The number of the mainboard's adapter: loading ends with the module resident, and nothing
was touched. -/
theorem astral_foreign_untouched_mainboard :
    ∃ s, ReachableBy (lifecycle (onBus 0)) cardBoard.Registers s ∧ s.init = .done ∧
      (findForeignAdapter (cardBoard.host "/sys".toList) "/sys".toList ()).1 = some 0 ∧
      (∀ client, .created client ∉ s.sh.log) ∧
      (∀ client result, .transfer client result ∉ s.sh.log) ∧
      ∀ client, .hwmon client ∉ s.sh.log := by
  have hrun : (System.execBy (next (onBus 0)) cardBoard.Registers St.boot
      (addBoard ++ List.replicate 9 (.init (.ok (.block idleBlock))))).any
        (fun s => decide (s.init = .done)) = true := by
    decide +kernel
  obtain ⟨s, hexec, hinit⟩ := System.any_decide_iff.mp hrun
  have hreach : ReachableBy (lifecycle (onBus 0)) cardBoard.Registers s :=
    System.execBy_reachableBy rfl hexec
  have hforeign :
      (findForeignAdapter (cardBoard.host "/sys".toList) "/sys".toList ()).1 = some 0 := by
    decide +kernel
  exact ⟨s, hreach, hinit, hforeign,
    astral_foreign_untouched cardBoard_shown hforeign rfl hreach⟩

/-! ### An adapter of the card without the chip -/

/-- The transfer that a step makes, and on which client. -/
def transferOf (s : St) : Action → Option (I2cClient × SmbusResult)
  | .hwmonRead client result => some (client, result)
  | a =>
    match s.acting a with
    | some (.refresh client, env) => some (client, env.io.transfer)
    | _ => none

/-- A chip answers on one bus only. -/
def AnswersOn (chip : Option ℕ) (s : St) (a : Action) : Prop :=
  ∀ t ∈ transferOf s a, t.2.Good → chip = some t.1.adapter.nr

instance (chip : Option ℕ) (s : St) (a : Action) : Decidable (AnswersOn chip s a) :=
  inferInstanceAs (Decidable (∀ t ∈ transferOf s a, _))

/-- Every good transfer on record is on the bus of the chip. -/
def Answered (chip : Option ℕ) (o : Own) : Prop :=
  ∀ client result, .transfer client result ∈ o.sh.log → result.Good →
    chip = some client.adapter.nr

theorem Answered.move {chip : Option ℕ} {s : St} {o : Own} {a : Action}
    (h : Answered chip s.own) (hok : AnswersOn chip s a) (hmove : Move P s.own a (s.acting a) o) :
    Answered chip o := by
  intro client result hmem hgood
  obtain ⟨new, hlog, hnew⟩ := hmove.news
  rw [hlog] at hmem
  rcases List.mem_append.mp hmem with hmem | hmem
  · refine hok (client, result) ?_ hgood
    rcases hnew _ hmem with ⟨env, hact, rfl⟩ | rfl
    · cases a with
      -- a read of the hwmon device is no step of a pass
      | hwmonRead => exact absurd hact (by simp [St.acting])
      | _ => simp [transferOf, hact]
    · rfl
  · exact h client result hmem hgood

theorem answered_reachable {chip : Option ℕ} {s : St}
    (h : ReachableBy (lifecycle P) (AnswersOn chip) s) : Answered chip s.own :=
  own_invariant (by simp [Answered, St.own, St.boot])
    (fun s a o _ hI hok hmove => hI.move hok hmove) h

/-- **An adapter of the card without the chip is declined.** With the number of an adapter of
the vendor's that is not the one the oracle finds, in every run on the board in which the chip
answers on that one only, the driver makes transfers on the adapter it was given, none of them
is good, and it registers no sensors. -/
theorem astral_chipless_declined (hshown : b.ShownBy host sysfsRoot) {n : ℕ} {chip : Option ℕ}
    (hsensor : (findAstralAdapter host sysfsRoot false w).1 = .ok (chip.map fun n => (n : ℤ)))
    (hchipless : (findChiplessNvidiaAdapter host sysfsRoot w).1 = .ok (some n)) (hbus : P.bus = n)
    {s : St}
    (h : ReachableBy (lifecycle P) (fun s a => b.Registers s a ∧ AnswersOn chip s a) s) :
    (∀ client result, .transfer client result ∈ s.sh.log →
      client.adapter.nr = n ∧ ¬ result.Good) ∧ ∀ client, .hwmon client ∉ s.sh.log := by
  have htransfer : ∀ client result, .transfer client result ∈ s.sh.log →
      client.adapter.nr = n ∧ ¬ result.Good := by
    intro client result hmem
    have hboard := h.mono fun _ _ => And.left
    have hclient := (gated_reachable h.reachable).transfer client result hmem
    obtain ⟨hn, -⟩ := b.created_onBus hbus hboard hclient
    refine ⟨hn, fun hgood => ?_⟩
    have hchip := answered_reachable (h.mono fun _ _ => And.right) client result hmem hgood
    obtain ⟨sensor, hfound, ⟨adap, -, ⟨-, hother⟩, hnr⟩, -⟩ :=
      (findChiplessNvidiaAdapter_eq_some_iff hshown w).mp hchipless
    -- the chip's number is the one the search finds
    obtain rfl : sensor = chip.map fun n => (n : ℤ) := Except.ok.inj (hfound.symm.trans hsensor)
    rw [hchip, hn, hnr] at hother
    exact hother rfl
  refine ⟨htransfer, fun client hmem => ?_⟩
  obtain ⟨result, hgood, hmem⟩ := transfer_of_hwmon h.reachable hmem
  exact (htransfer client result hmem).2 hgood

/-- The number of the card's other adapter: the one transfer of the load fails, and loading
ends with the module resident. -/
theorem astral_chipless_declined_otherAdapter :
    ∃ s, ReachableBy (lifecycle (onBus 3))
        (fun s a => cardBoard.Registers s a ∧ AnswersOn (some 4) s a) s ∧
      s.init = .done ∧ .transfer ⟨3, otherAdapter, 0x2b⟩ (.error EIO) ∈ s.sh.log ∧
      (∀ client result, .transfer client result ∈ s.sh.log →
        client.adapter.nr = 3 ∧ ¬ result.Good) ∧ ∀ client, .hwmon client ∉ s.sh.log := by
  have hrun : (System.execBy (next (onBus 3))
      (fun s a => cardBoard.Registers s a ∧ AnswersOn (some 4) s a) St.boot
      (addBoard ++ List.replicate 15 (.init (.ok (.error EIO))))).any
        (fun s => decide (s.init = .done ∧
          .transfer ⟨3, otherAdapter, 0x2b⟩ (.error EIO) ∈ s.sh.log)) = true := by
    decide +kernel
  obtain ⟨s, hexec, hinit, htransfer⟩ := System.any_decide_iff.mp hrun
  have hreach : ReachableBy (lifecycle (onBus 3))
      (fun s a => cardBoard.Registers s a ∧ AnswersOn (some 4) s a) s :=
    System.execBy_reachableBy rfl hexec
  exact ⟨s, hreach, hinit, htransfer, astral_chipless_declined cardBoard_shown
    (show (findAstralAdapter (cardBoard.host "/sys".toList) "/sys".toList false ()).1
      = .ok (some 4) by decide +kernel) (by decide +kernel) rfl hreach⟩

/-! ### The default -/

/-- What the driver selects depends on the name and the parent of an adapter only. -/
theorem selects_congr {adap adap' : I2cAdapter} (hname : adap'.name = adap.name)
    (hparent : adap'.parent = adap.parent) (allowUnknown : Bool) :
    selects adap' allowUnknown = selects adap allowUnknown := by
  rw [selects, selects, astralCardMatches, astralCardMatches, astralIsSensorAdapter,
    astralIsSensorAdapter, hname, hparent]

theorem selects_of_recognised {adap : I2cAdapter} (hbus : P.bus < 0) (h : Recognised P adap) :
    selects adap P.allowUnknown = true := by
  rw [selects, Bool.and_eq_true]
  exact ⟨astralCardMatches_isSome_iff.mpr h.1, h.2.2 hbus⟩

/-- **One bus for both.** On its default, on a regular board of whose adapters the driver
selects one at most, every client the driver creates and every transfer it makes in a run on
the board is on the bus that the oracle finds. -/
theorem astral_onFoundBus (hshown : b.ShownBy host sysfsRoot) (hnames : b.Regular)
    (hone : ∀ adap ∈ b.adapters, ∀ adap' ∈ b.adapters, selects adap P.allowUnknown = true →
      selects adap' P.allowUnknown = true → adap = adap')
    (hbus : P.bus < 0) {s : St} (h : ReachableBy (lifecycle P) b.Registers s) :
    (∀ client, .created client ∈ s.sh.log →
      (findAstralAdapter host sysfsRoot P.allowUnknown w).1
        = .ok (some (client.adapter.nr : ℤ))) ∧
    ∀ client result, .transfer client result ∈ s.sh.log →
      (findAstralAdapter host sysfsRoot P.allowUnknown w).1
        = .ok (some (client.adapter.nr : ℤ)) := by
  have hcreated : ∀ client, .created client ∈ s.sh.log →
      (findAstralAdapter host sysfsRoot P.allowUnknown w).1
        = .ok (some (client.adapter.nr : ℤ)) := by
    intro client hclient
    have hrecognised := (gated_reachable h.reachable).created client hclient
    obtain ⟨adap, hadap, hnr, hname, hparent⟩ := (b.holds_reachable h).created client hclient
    have hselects : selects adap P.allowUnknown = true := by
      rw [selects_congr hname hparent]
      exact selects_of_recognised hbus hrecognised
    rw [findAstralAdapter_eq hshown hnames.ascii]
    cases hsensor : b.sensor sysfsRoot P.allowUnknown with
    | none =>
      have hnone := Board.sensor_eq_none hnames hsensor hadap
      exact absurd (hselects.symm.trans hnone) (by decide)
    | some found =>
      -- the two sides have selected the one adapter there is to select
      obtain ⟨hfound, hfoundSelects⟩ := Board.sensor_eq_some hnames hsensor
      rw [hone found hfound adap hadap hfoundSelects hselects, Option.map_some, hnr]
  refine ⟨hcreated, fun client result hmem => ?_⟩
  exact hcreated client ((gated_reachable h.reachable).transfer client result hmem)

/-- The machine with one card, loaded up to a transfer: it is on the bus that the oracle
finds. -/
theorem astral_onFoundBus_oneCard :
    ∃ s, ReachableBy (lifecycle (onBus (-1))) cardBoard.Registers s ∧ s.init = .done ∧
      .transfer ⟨3, sensorAdapter 1 4, 0x2b⟩ (.block idleBlock) ∈ s.sh.log ∧
      (findAstralAdapter (cardBoard.host "/sys".toList) "/sys".toList false ()).1
        = .ok (some 4) := by
  have hrun : (System.execBy (next (onBus (-1))) cardBoard.Registers St.boot
      (addBoard ++ List.replicate 13 (.init (.ok (.block idleBlock))))).any
        (fun s => decide (s.init = .done ∧
          .transfer ⟨3, sensorAdapter 1 4, 0x2b⟩ (.block idleBlock) ∈ s.sh.log)) = true := by
    decide +kernel
  obtain ⟨s, hexec, hinit, htransfer⟩ := System.any_decide_iff.mp hrun
  have hreach : ReachableBy (lifecycle (onBus (-1))) cardBoard.Registers s :=
    System.execBy_reachableBy rfl hexec
  exact ⟨s, hreach, hinit, htransfer, (astral_onFoundBus cardBoard_shown cardBoard_regular
    (by decide +kernel) (by decide) hreach).2 _ _ htransfer⟩

end Oracle

end Astral
