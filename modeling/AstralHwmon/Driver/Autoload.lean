import AstralHwmon.Driver.Detect

/-!
# The gates and the autoload table

`driver/astral_detect.c` again, with what `Detect` leaves out of it: the device id, the
table that makes udev load the module, and the references that `astral_card_present`
takes on PCI devices. The three matchers of that file agree.

The kernel's own searches of the PCI bus are a `PciCore`, which may return any device
that matches. A device is known by its place on the bus.
-/

open CText

namespace Astral

/-- A device on the PCI bus, with its device id. -/
structure PciDevice extends PciDev where
  device : UInt16

/-- The ids of a `struct pci_device_id`. Its class takes part in no match here, as
`PCI_DEVICE_SUB` leaves the mask zero. -/
structure PciDeviceId where
  vendor : UInt32
  device : UInt32
  subvendor : UInt32
  subdevice : UInt32

/-- `PCI_ANY_ID`. -/
def pciAnyId : UInt32 := 0xffffffff

/-- One id of a device, against one that is asked for. -/
def pciIdMatches (want : UInt32) (id : UInt16) : Bool :=
  want == pciAnyId || want == id.toUInt32

/-- The kernel's `pci_match_one_device`. -/
def PciDeviceId.isOf (id : PciDeviceId) (pdev : PciDevice) : Bool :=
  pciIdMatches id.vendor pdev.vendor && pciIdMatches id.device pdev.device &&
    pciIdMatches id.subvendor pdev.subsystemVendor &&
    pciIdMatches id.subdevice pdev.subsystemDevice

/-- The kernel's `pci_match_id`: a row of zeros ends the table. -/
def pciMatchId : List PciDeviceId → PciDevice → Option PciDeviceId
  | [], _ => none
  | id :: ids, pdev =>
    if id.vendor = 0 ∧ id.subvendor = 0 then none
    else if id.isOf pdev then some id
    else pciMatchId ids pdev

/-- `ASTRAL_PCI_ROW`. -/
def astralPciRow (model : AstralModel) : PciDeviceId :=
  ⟨pciVendorNvidia.toUInt32, pciAnyId, model.subsystemVendor.toUInt32,
    model.subsystemDevice.toUInt32⟩

/-- `astral_pci_ids`. -/
def astralPciIds : List PciDeviceId := astralModels.map astralPciRow ++ [⟨0, 0, 0, 0⟩]

/-! ### The load gate, with its references -/

/-- A reference to the device at a place on the bus, taken or dropped. -/
inductive PciRef
  | get (place : ℕ)
  | put (place : ℕ)
  deriving DecidableEq

/-- What is held after some references were taken and dropped; `none` if one was dropped
that was not held. -/
def heldRefs : List PciRef → List ℕ → Option (List ℕ)
  | [], held => some held
  | .get place :: log, held => heldRefs log (place :: held)
  | .put place :: log, held => if place ∈ held then heldRefs log (held.erase place) else none

/-- The kernel's searches of the PCI bus from its start, and what they promise: a device
that matches if there is one, and NULL otherwise. -/
structure PciCore where
  /-- `pci_get_subsys`. -/
  getSubsys : List PciDevice → PciDeviceId → Option ℕ
  /-- `pci_get_device`. -/
  getDevice : List PciDevice → UInt32 → UInt32 → Option ℕ
  isOf_of_getSubsys {pci id place} : getSubsys pci id = some place →
    ∃ pdev, pci[place]? = some pdev ∧ id.isOf pdev = true
  getSubsys_isSome {pci id} :
    (∃ pdev ∈ pci, id.isOf pdev = true) → (getSubsys pci id).isSome = true
  isOf_of_getDevice {pci vendor dev place} : getDevice pci vendor dev = some place →
    ∃ pdev, pci[place]? = some pdev ∧ PciDeviceId.isOf ⟨vendor, dev, pciAnyId, pciAnyId⟩ pdev = true
  getDevice_isSome {pci vendor dev} :
    (∃ pdev ∈ pci, PciDeviceId.isOf ⟨vendor, dev, pciAnyId, pciAnyId⟩ pdev = true) →
      (getDevice pci vendor dev).isSome = true

/-- What a search found comes with a reference to it. -/
def referenced (found : Option ℕ) : StateM (List PciRef) (Option ℕ) := do
  if let some place := found then modify (· ++ [.get place])
  return found

/-- `pci_dev_put`. -/
def pciDevPut (place : ℕ) : StateM (List PciRef) Unit := modify (· ++ [.put place])

/-- The loop of `astral_card_present`. -/
def PciCore.searchModels (core : PciCore) (pci : List PciDevice) :
    List AstralModel → StateM (List PciRef) (Option CStr)
  | [] => return none
  | model :: models => do
    match ← referenced (core.getSubsys pci (astralPciRow model)) with
    | some place =>
      pciDevPut place
      return some model.name
    | none => core.searchModels pci models

/-- `astral_card_present` with the references it takes: the model it reports, or `none`
for false. -/
def PciCore.astralCardPresent (core : PciCore) (pci : List PciDevice) (allowUnknown : Bool) :
    StateM (List PciRef) (Option CStr) := do
  match ← core.searchModels pci astralModels with
  | some model => return some model
  | none =>
    if !allowUnknown then return none
    else
      match ← referenced (core.getDevice pci pciVendorNvidia.toUInt32 pciAnyId) with
      | some place =>
        pciDevPut place
        return some "unrecognised NVIDIA GPU (allow_unknown)".toList
      | none => return none

/-! ### What the searches find -/

theorem pciIdMatches_toUInt32 {want id : UInt16} :
    pciIdMatches want.toUInt32 id = true ↔ want = id := by
  -- an id of 16 bits is not `PCI_ANY_ID`
  have hany : want.toUInt32 ≠ pciAnyId := by
    intro h
    have hnat := congrArg UInt32.toNat h
    have hlt := want.toNat_lt
    rw [UInt16.toNat_toUInt32, pciAnyId] at hnat
    exact absurd hnat (by simp; omega)
  rw [pciIdMatches, Bool.or_eq_true, beq_iff_eq, beq_iff_eq, UInt16.toUInt32_inj]
  exact or_iff_right hany

theorem pciIdMatches_any (id : UInt16) : pciIdMatches pciAnyId id = true := rfl

/-- A row of the autoload table is a row of the allowlist, for the vendor's devices. -/
theorem astralPciRow_isOf {model : AstralModel} {pdev : PciDevice} :
    (astralPciRow model).isOf pdev = true ↔
      pdev.vendor = pciVendorNvidia ∧ model.isOf pdev.toPciDev = true := by
  simp only [PciDeviceId.isOf, astralPciRow, Bool.and_eq_true, pciIdMatches_toUInt32,
    pciIdMatches_any, AstralModel.isOf, beq_iff_eq, and_true, and_assoc]
  rw [eq_comm]

theorem nvidia_isOf {pdev : PciDevice} :
    PciDeviceId.isOf ⟨pciVendorNvidia.toUInt32, pciAnyId, pciAnyId, pciAnyId⟩ pdev = true ↔
      pdev.vendor = pciVendorNvidia := by
  simp only [PciDeviceId.isOf, Bool.and_eq_true, pciIdMatches_toUInt32, pciIdMatches_any, and_true]
  exact eq_comm

theorem PciCore.getSubsys_isSome_iff (core : PciCore) {pci : List PciDevice} {id : PciDeviceId} :
    (core.getSubsys pci id).isSome = true ↔ ∃ pdev ∈ pci, id.isOf pdev = true := by
  refine ⟨fun h => ?_, core.getSubsys_isSome⟩
  obtain ⟨place, hplace⟩ := Option.isSome_iff_exists.mp h
  obtain ⟨pdev, hpdev, hid⟩ := core.isOf_of_getSubsys hplace
  exact ⟨pdev, List.mem_of_getElem? hpdev, hid⟩

theorem PciCore.getDevice_isSome_iff (core : PciCore) {pci : List PciDevice} {vendor dev : UInt32} :
    (core.getDevice pci vendor dev).isSome = true ↔
      ∃ pdev ∈ pci, PciDeviceId.isOf ⟨vendor, dev, pciAnyId, pciAnyId⟩ pdev = true := by
  refine ⟨fun h => ?_, core.getDevice_isSome⟩
  obtain ⟨place, hplace⟩ := Option.isSome_iff_exists.mp h
  obtain ⟨pdev, hpdev, hid⟩ := core.isOf_of_getDevice hplace
  exact ⟨pdev, List.mem_of_getElem? hpdev, hid⟩

/-- A table that ends in zeros matches what one of its rows matches. -/
theorem pciMatchId_isSome_iff {ids : List PciDeviceId} (hids : ∀ id ∈ ids, id.vendor ≠ 0)
    {pdev : PciDevice} : (pciMatchId (ids ++ [⟨0, 0, 0, 0⟩]) pdev).isSome = true ↔
      ∃ id ∈ ids, id.isOf pdev = true := by
  induction ids with
  | nil => simp [pciMatchId]
  | cons id ids ih =>
    rw [List.cons_append, pciMatchId, if_neg fun h => hids id List.mem_cons_self h.1,
      List.exists_mem_cons_iff, ← ih fun id hid => hids id (List.mem_cons_of_mem _ hid)]
    cases id.isOf pdev <;> simp

/-! ### The gates agree -/

/-- The search for a model finds one if some device of the bus is of a model. -/
theorem find_model_isSome_iff {pci : List PciDev} :
    (astralModels.find? fun model => (pciGetSubsys pci model).isSome).isSome = true ↔
      ∃ pdev ∈ pci, pdev.vendor = pciVendorNvidia ∧
        ∃ model ∈ astralModels, model.isOf pdev = true := by
  simp only [List.find?_isSome, pciGetSubsys, Bool.and_eq_true, beq_iff_eq]
  constructor
  · rintro ⟨model, hmodel, pdev, hpdev, hvendor, hpair⟩
    exact ⟨pdev, hpdev, hvendor, model, hmodel, hpair⟩
  · rintro ⟨pdev, hpdev, hvendor, model, hmodel, hpair⟩
    exact ⟨model, hmodel, pdev, hpdev, hvendor, hpair⟩

/-- What the load gate finds on the bus. -/
theorem astralCardPresent_isSome_iff {pci : List PciDev} {allowUnknown : Bool} :
    (astralCardPresent pci allowUnknown).isSome = true ↔
      ∃ pdev ∈ pci, pdev.vendor = pciVendorNvidia ∧
        ((∃ model ∈ astralModels, model.isOf pdev = true) ∨ allowUnknown = true) := by
  unfold astralCardPresent
  cases hfind : astralModels.find? fun model => (pciGetSubsys pci model).isSome with
  | some model =>
    obtain ⟨pdev, hpdev, hvendor, hmodel⟩ := find_model_isSome_iff.mp (by rw [hfind]; rfl)
    exact ⟨fun _ => ⟨pdev, hpdev, hvendor, Or.inl hmodel⟩, fun _ => rfl⟩
  | none =>
    -- no device is of a model
    have hno : ¬ ∃ pdev ∈ pci, pdev.vendor = pciVendorNvidia ∧
        ∃ model ∈ astralModels, model.isOf pdev = true := by
      rw [← find_model_isSome_iff, hfind]
      simp
    cases allowUnknown with
    | true => simp
    | false =>
      refine ⟨fun h => absurd h (by simp), fun ⟨pdev, hpdev, hvendor, h⟩ => ?_⟩
      exact absurd ⟨pdev, hpdev, hvendor, h.resolve_right (by simp)⟩ hno

/-- An adapter is accepted on the devices that make up the load gate's answer. -/
theorem astralCardMatches_on {adap : I2cAdapter} {pdev : PciDev} {allowUnknown : Bool} :
    (astralCardMatches { adap with parent := some (.pci pdev) } allowUnknown).isSome = true ↔
      pdev.vendor = pciVendorNvidia ∧
        ((∃ model ∈ astralModels, model.isOf pdev = true) ∨ allowUnknown = true) := by
  simp only [astralCardMatches_isSome_iff, Option.some.injEq, ParentDevice.pci.injEq,
    exists_eq_left', AstralModel.isOf, Bool.and_eq_true, beq_iff_eq, pciVendorNvidia]

/-- The autoload table matches the same devices, unknown ones apart. -/
theorem pciMatchId_astralPciIds {pdev : PciDevice} :
    (pciMatchId astralPciIds pdev).isSome = true ↔ pdev.vendor = pciVendorNvidia ∧
      ∃ model ∈ astralModels, model.isOf pdev.toPciDev = true := by
  have hids : ∀ id ∈ astralModels.map astralPciRow, id.vendor ≠ 0 := by
    intro id hid
    obtain ⟨model, -, rfl⟩ := List.mem_map.mp hid
    exact (by decide : pciVendorNvidia.toUInt32 ≠ 0)
  rw [astralPciIds, pciMatchId_isSome_iff hids]
  constructor
  · rintro ⟨id, hid, hmatch⟩
    obtain ⟨model, hmodel, rfl⟩ := List.mem_map.mp hid
    obtain ⟨hvendor, hpair⟩ := astralPciRow_isOf.mp hmatch
    exact ⟨hvendor, model, hmodel, hpair⟩
  · rintro ⟨hvendor, model, hmodel, hpair⟩
    exact ⟨_, List.mem_map_of_mem hmodel, astralPciRow_isOf.mpr ⟨hvendor, hpair⟩⟩

/-! ### The references -/

section Refs

variable (core : PciCore) {pci : List PciDevice}

/-- What a run of the gate does to the references: nothing, or it takes one to a device of
the bus and drops it. -/
def TakenAndDropped (pci : List PciDevice) (new : List PciRef) : Prop :=
  new = [] ∨ ∃ place, place < pci.length ∧ new = [.get place, .put place]

theorem TakenAndDropped.held {new : List PciRef} (h : TakenAndDropped pci new) (held : List ℕ) :
    heldRefs new held = some held := by
  rcases h with rfl | ⟨place, -, rfl⟩
  · rfl
  · simp [heldRefs]

variable (pci) in
/-- Either search of the bus finds a device of a model, or neither does. -/
theorem PciCore.getSubsys_row (model : AstralModel) :
    (core.getSubsys pci (astralPciRow model)).isSome
      = (pciGetSubsys (pci.map PciDevice.toPciDev) model).isSome := by
  rw [Bool.eq_iff_iff, core.getSubsys_isSome_iff, pciGetSubsys, List.find?_isSome]
  simp only [astralPciRow_isOf, List.mem_map, exists_exists_and_eq_and, Bool.and_eq_true,
    beq_iff_eq]

variable (pci) in
/-- So it is for any device of the vendor. -/
theorem PciCore.getDevice_nvidia :
    (core.getDevice pci pciVendorNvidia.toUInt32 pciAnyId).isSome
      = ((pci.map PciDevice.toPciDev).find? fun pdev => pdev.vendor == pciVendorNvidia).isSome := by
  rw [Bool.eq_iff_iff, core.getDevice_isSome_iff, List.find?_isSome]
  simp only [nvidia_isOf, List.mem_map, exists_exists_and_eq_and, beq_iff_eq]

/-- The loop reports the first model of a device on the bus. -/
theorem PciCore.searchModels_run (models : List AstralModel) (log : List PciRef) :
    (models.find? (fun model => (pciGetSubsys (pci.map PciDevice.toPciDev) model).isSome) = none ∧
      (core.searchModels pci models).run log = (none, log)) ∨
    ∃ model place, place < pci.length ∧
      models.find? (fun model => (pciGetSubsys (pci.map PciDevice.toPciDev) model).isSome)
        = some model ∧
      (core.searchModels pci models).run log
        = (some model.name, log ++ [.get place, .put place]) := by
  induction models with
  | nil => exact Or.inl ⟨rfl, rfl⟩
  | cons model models ih =>
    have hrow := core.getSubsys_row pci model
    rw [searchModels, List.find?_cons, ← hrow]
    cases hfound : core.getSubsys pci (astralPciRow model) with
    | none => exact ih
    | some place =>
      obtain ⟨pdev, hplace, -⟩ := core.isOf_of_getSubsys hfound
      refine Or.inr ⟨model, place, (List.getElem?_eq_some_iff.mp hplace).1, rfl, ?_⟩
      exact congrArg (some model.name, ·) (List.append_assoc log _ _)

variable (pci) in
/-- The gate with its references reports what it reports without them. -/
theorem PciCore.astralCardPresent_run (allowUnknown : Bool) (log : List PciRef) :
    ∃ new, TakenAndDropped pci new ∧ (core.astralCardPresent pci allowUnknown).run log
      = (Astral.astralCardPresent (pci.map PciDevice.toPciDev) allowUnknown, log ++ new) := by
  unfold astralCardPresent Astral.astralCardPresent
  rcases core.searchModels_run astralModels log with
    ⟨hfind, hrun⟩ | ⟨model, place, hplace, hfind, hrun⟩ <;> rw [StateT.run_bind, hrun, hfind]
  · -- no device is of a model
    cases allowUnknown with
    | false => exact ⟨[], Or.inl rfl, by rw [List.append_nil]; rfl⟩
    | true =>
      have hnvidia := core.getDevice_nvidia pci
      cases hfound : core.getDevice pci pciVendorNvidia.toUInt32 pciAnyId with
      | none =>
        rw [hfound, Option.isSome_none, eq_comm, Option.isSome_eq_false_iff,
          Option.isNone_iff_eq_none] at hnvidia
        refine ⟨[], Or.inl rfl, ?_⟩
        simp only [Bool.not_true, Bool.false_eq_true, if_false, hnvidia, List.append_nil]
        rfl
      | some place =>
        obtain ⟨pdev, hplace, -⟩ := core.isOf_of_getDevice hfound
        rw [hfound, Option.isSome_some, eq_comm, Option.isSome_iff_exists] at hnvidia
        obtain ⟨found, hnvidia⟩ := hnvidia
        refine ⟨[.get place, .put place],
          Or.inr ⟨place, (List.getElem?_eq_some_iff.mp hplace).1, rfl⟩, ?_⟩
        simp only [Bool.not_true, Bool.false_eq_true, if_false, hnvidia]
        exact congrArg (some _, ·) (List.append_assoc log _ _)
  · exact ⟨_, Or.inr ⟨place, hplace, rfl⟩, rfl⟩

end Refs

/-- **The gates agree.** For any list of PCI devices and either value of `allow_unknown`,

* the load gate finds a card exactly when the attach gate would take an adapter on one of
  the devices, whatever else there is to the adapter;
* with `allow_unknown` off, exactly when the autoload table matches one of them;
* and it drops the references it takes, each while it is held, and no other. -/
theorem astralCardPresent_agrees (core : PciCore) (pci : List PciDevice) (allowUnknown : Bool)
    (adap : I2cAdapter) (held : List ℕ) :
    (((core.astralCardPresent pci allowUnknown).run []).1.isSome = true ↔ ∃ pdev ∈ pci,
      (astralCardMatches { adap with parent := some (.pci pdev.toPciDev) } allowUnknown).isSome
        = true) ∧
    (((core.astralCardPresent pci false).run []).1.isSome = true ↔
      ∃ pdev ∈ pci, (pciMatchId astralPciIds pdev).isSome = true) ∧
    heldRefs ((core.astralCardPresent pci allowUnknown).run []).2 held = some held := by
  obtain ⟨new, hnew, hrun⟩ := core.astralCardPresent_run pci allowUnknown []
  obtain ⟨new', -, hrun'⟩ := core.astralCardPresent_run pci false []
  rw [hrun, hrun']
  refine ⟨?_, ?_, hnew.held held⟩
  · simp only [astralCardPresent_isSome_iff, astralCardMatches_on, List.mem_map,
      exists_exists_and_eq_and]
  · simp only [astralCardPresent_isSome_iff, pciMatchId_astralPciIds, List.mem_map,
      exists_exists_and_eq_and, Bool.false_eq_true, or_false]

/-- The searches of a bus whose devices are looked at in order. -/
def pciScan : PciCore where
  getSubsys pci id := pci.findIdx? id.isOf
  getDevice pci vendor dev := pci.findIdx? (PciDeviceId.isOf ⟨vendor, dev, pciAnyId, pciAnyId⟩)
  isOf_of_getSubsys h := by
    obtain ⟨hlt, hid, -⟩ := List.findIdx?_eq_some_iff_getElem.mp h
    exact ⟨_, List.getElem?_eq_getElem hlt, hid⟩
  getSubsys_isSome h := by rw [List.findIdx?_isSome]; exact List.any_eq_true.mpr h
  isOf_of_getDevice h := by
    obtain ⟨hlt, hid, -⟩ := List.findIdx?_eq_some_iff_getElem.mp h
    exact ⟨_, List.getElem?_eq_getElem hlt, hid⟩
  getDevice_isSome h := by rw [List.findIdx?_isSome]; exact List.any_eq_true.mpr h

/-- An unlisted card of the vendor: taken only when unknown ones are allowed. -/
def unlistedBus : List PciDevice :=
  [⟨⟨0x8086, 0x1043, 0x89e3⟩, 0x7a4⟩, ⟨⟨0x10de, 0x1043, 0xffff⟩, 0x2b85⟩]

theorem astralCardPresent_agrees_unlisted :
    ((pciScan.astralCardPresent unlistedBus true).run []).1.isSome = true ∧
      ((pciScan.astralCardPresent unlistedBus false).run []).1.isSome = false := by
  have hagree := fun allowUnknown =>
    astralCardPresent_agrees pciScan unlistedBus allowUnknown ⟨0, 0, [], none⟩ []
  refine ⟨(hagree true).1.mpr ⟨_, List.mem_cons_of_mem _ List.mem_cons_self, by decide⟩, ?_⟩
  rw [Bool.eq_false_iff, Ne, (hagree false).2.1]
  decide

end Astral
