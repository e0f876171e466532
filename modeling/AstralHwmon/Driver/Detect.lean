import AstralHwmon.Lib.CText
import Mathlib.Data.Int.Basic
import Mathlib.Data.List.DropRight

/-!
# Deciding whether an adapter belongs to a card we may talk to

`driver/astral_detect.c`: the PCI gate on an adapter's parent, the search of the
PCI bus at load, and the choice of the sensor adapter by its name.

The name is matched with the kernel's `sscanf`. `sscanfInt` follows it for a
format with one `%d`: white space in the format matches any amount of it, other
characters match themselves, and the number wraps to an `int`. What follows the
number is ignored.
-/

open CText

namespace Astral

/-- The ids the gate looks at in a PCI device. -/
structure PciDev where
  vendor : UInt16
  subsystemVendor : UInt16
  subsystemDevice : UInt16
  deriving DecidableEq

/-- What an adapter hangs off: a PCI device, or a device that is none. -/
inductive ParentDevice
  | pci (pdev : PciDev)
  | other
  deriving DecidableEq

/-- An i2c adapter: the object, its id, its name and its parent. -/
structure I2cAdapter where
  obj : ℕ
  nr : ℕ
  name : CStr
  parent : Option ParentDevice
  deriving DecidableEq

/-- `PCI_VENDOR_NVIDIA`. -/
def pciVendorNvidia : UInt16 := 0x10de

/-- `struct astral_model`. -/
structure AstralModel where
  subsystemVendor : UInt16
  subsystemDevice : UInt16
  name : CStr

/-- `astral_models`. -/
def astralModels : List AstralModel :=
  [⟨0x1043, 0x89ea, "ROG Astral RTX 5090D OC".toList⟩,
    ⟨0x1043, 0x8a61, "ROG Astral RTX 5090 Matrix".toList⟩,
    ⟨0x1043, 0x89ec, "ROG Astral RTX 5090 LC".toList⟩,
    ⟨0x1043, 0x89e3, "ROG Astral RTX 5090 OC".toList⟩,
    ⟨0x1043, 0x89de, "ROG Astral RTX 5080 OC".toList⟩,
    ⟨0x1043, 0x8a2e, "ROG Astral RTX 5090 OC White".toList⟩,
    ⟨0x1043, 0x8a2b, "ROG Astral RTX 5080 OC White".toList⟩,
    ⟨0x1043, 0x8a45, "ROG Astral RTX 5080 OC Hatsune Miku".toList⟩]

/-- A row of the table is the subsystem pair of a device. -/
def AstralModel.isOf (model : AstralModel) (pdev : PciDev) : Bool :=
  model.subsystemVendor == pdev.subsystemVendor && model.subsystemDevice == pdev.subsystemDevice

/-- `astral_model_name`; `none` is the null pointer. -/
def astralModelName (pdev : PciDev) : Option CStr :=
  (astralModels.find? fun model => model.isOf pdev).map AstralModel.name

/-- `pci_get_subsys` for an NVIDIA device with any device id. -/
def pciGetSubsys (pci : List PciDev) (model : AstralModel) : Option PciDev :=
  pci.find? fun pdev => pdev.vendor == pciVendorNvidia && model.isOf pdev

/-- `astral_card_present`: the model it reports, or `none` for false. -/
def astralCardPresent (pci : List PciDev) (allowUnknown : Bool) : Option CStr :=
  match astralModels.find? fun model => (pciGetSubsys pci model).isSome with
  | some model => some model.name
  | none =>
    if !allowUnknown then none
    else (pci.find? fun pdev => pdev.vendor == pciVendorNvidia).map fun _ =>
      "unrecognised NVIDIA GPU (allow_unknown)".toList

/-- `astral_card_matches`: the model it reports, or `none` for false. -/
def astralCardMatches (adap : I2cAdapter) (allowUnknown : Bool) : Option CStr :=
  match adap.parent with
  | some (.pci pdev) =>
    -- the vendor is checked whatever `allow_unknown` says
    if pdev.vendor ≠ pciVendorNvidia then none
    else
      match astralModelName pdev with
      | some model => some model
      | none => if allowUnknown then some "unknown Astral variant".toList else none
  | _ => none

/-- The kernel's `isspace`, which also takes the no-break space. -/
def kernelIsspace (c : Char) : Bool := isspace c || c.toNat == 0xa0

/-- The kernel's conversion of `%d`: white space, a sign, digits; the value wraps
to an `int`. -/
def kernelInt (str : CStr) : Option ℤ :=
  match str.dropWhile kernelIsspace with
  | [] => none
  | c :: cs =>
    -- a minus sign only: the kernel takes no plus here
    let digits := ((if c = '-' then cs else c :: cs).takeWhile Char.isDigit)
    if digits = [] then none
    else
      let n : ℤ := Nat.ofDigitChars 10 digits 0
      some (BitVec.ofInt 32 (if c = '-' then -n else n)).toInt

/-- The kernel's `sscanf(str, fmt, &n)` for a format that ends in `%d`: the number
stored, or `none` when it returns something other than 1. -/
def sscanfInt : CStr → CStr → Option ℤ
  | [], _ => none
  | f :: fmt, str =>
    if kernelIsspace f then sscanfInt fmt (str.dropWhile kernelIsspace)
    else if f = '%' then kernelInt str
    else
      match str with
      | [] => none
      | c :: str => if f = c then sscanfInt fmt str else none

/-- `ASTRAL_ADAPTER_FMT`. -/
def astralAdapterFmt : CStr := "NVIDIA i2c adapter %d".toList

/-- `astral_is_sensor_adapter`. -/
def astralIsSensorAdapter (adap : I2cAdapter) : Bool :=
  match sscanfInt astralAdapterFmt adap.name with
  | none => false
  | some index => index == 1

/-- What the gate lets through: a PCI parent of the vendor, whose subsystem pair
is in the table unless unknown ones are allowed. -/
theorem astralCardMatches_isSome_iff {adap : I2cAdapter} {allowUnknown : Bool} :
    (astralCardMatches adap allowUnknown).isSome = true ↔
      ∃ pdev, adap.parent = some (.pci pdev) ∧ pdev.vendor = 0x10de ∧
        ((∃ model ∈ astralModels, model.subsystemVendor = pdev.subsystemVendor ∧
          model.subsystemDevice = pdev.subsystemDevice) ∨ allowUnknown = true) := by
  -- the search for a name finds one exactly for the pairs of the table
  have htable : ∀ pdev, (astralModelName pdev).isSome = true ↔
      ∃ model ∈ astralModels, model.subsystemVendor = pdev.subsystemVendor ∧
        model.subsystemDevice = pdev.subsystemDevice := by
    intro pdev
    rw [astralModelName, Option.isSome_map, List.find?_isSome]
    simp [AstralModel.isOf]
  unfold astralCardMatches
  split
  next pdev hparent =>
    simp only [hparent, Option.some.injEq, ParentDevice.pci.injEq, exists_eq_left', ← htable]
    by_cases hvendor : pdev.vendor = pciVendorNvidia
    · rw [if_neg (not_not.mpr hvendor)]
      -- in the table, or left to `allow_unknown`
      cases hname : astralModelName pdev with
      | some model => simp [hvendor, pciVendorNvidia]
      | none => cases allowUnknown <;> simp [hvendor, pciVendorNvidia]
    · rw [if_pos hvendor]
      exact ⟨fun h => absurd h (by simp), fun h => absurd h.1 hvendor⟩
  next hparent =>
    exact ⟨fun h => absurd h (by simp), fun ⟨pdev, h, _⟩ => absurd h (hparent pdev)⟩

/-! ### What the format takes -/

/-- White space in the format matches any amount of it. -/
theorem sscanfInt_blank (fmt str : CStr) :
    sscanfInt (' ' :: fmt) str = sscanfInt fmt (str.dropWhile kernelIsspace) := by
  rw [sscanfInt.eq_def]
  exact if_pos (by decide)

/-- Other characters match themselves. -/
theorem sscanfInt_literal {lit : CStr} (hlit : ∀ c ∈ lit, kernelIsspace c = false ∧ c ≠ '%')
    {fmt str : CStr} {v : ℤ} : sscanfInt (lit ++ fmt) str = some v ↔
      ∃ rest, str = lit ++ rest ∧ sscanfInt fmt rest = some v := by
  induction lit generalizing str with
  | nil => simp
  | cons f lit ih =>
    obtain ⟨hspace, hpercent⟩ := hlit f List.mem_cons_self
    rw [List.cons_append, sscanfInt.eq_def]
    dsimp only
    rw [if_neg (by simp [hspace]), if_neg hpercent]
    cases str with
    | nil => simp
    | cons c str =>
      dsimp only
      by_cases hc : f = c
      · rw [if_pos hc, ih fun c hc => hlit c (List.mem_cons_of_mem f hc)]
        simp [hc]
      · rw [if_neg hc]
        simp [Ne.symm hc]

theorem kernelIsspace_of_isDigit {c : Char} (h : c.isDigit = true) : kernelIsspace c = false := by
  have hhi : c.toNat ≤ 57 := by
    simp only [Char.isDigit, Bool.and_eq_true, decide_eq_true_eq] at h
    exact UInt32.le_iff_toNat_le.mp h.2
  have hne : c.toNat ≠ 0xa0 := by omega
  simp [kernelIsspace, (not_special_of_isDigit h).1, hne]

/-- What the kernel's `%d` takes: white space, a minus sign or none, all the digits
there are. -/
theorem kernelInt_eq_some_iff {str : CStr} {v : ℤ} : kernelInt str = some v ↔
    ∃ ws sign digits tail : CStr, str = ws ++ (sign ++ (digits ++ tail)) ∧
      (∀ c ∈ ws, kernelIsspace c = true) ∧ (sign = [] ∨ sign = ['-']) ∧ digits ≠ [] ∧
      (∀ c ∈ digits, c.isDigit = true) ∧ tail.head?.any Char.isDigit = false ∧
      (BitVec.ofInt 32 (signedValue (sign = ['-']) digits)).toInt = v := by
  constructor
  · intro h
    unfold kernelInt at h
    split at h
    next => exact absurd h (by simp)
    next c cs hrest =>
      obtain ⟨ws, rfl, hws, -⟩ := dropWhile_eq_iff.mp hrest
      dsimp only at h
      -- the sign is the first character or missing
      obtain ⟨sign, hsplit, hsign, hminus⟩ : ∃ sign : CStr,
          c :: cs = sign ++ (if c = '-' then cs else c :: cs) ∧ (sign = [] ∨ sign = ['-']) ∧
            (sign = ['-'] ↔ c = '-') := by
        by_cases hminus : c = '-'
        · exact ⟨['-'], by simp [hminus], Or.inr rfl, by simp [hminus]⟩
        · exact ⟨[], by simp [hminus], Or.inl rfl, by simp [hminus]⟩
      generalize (if c = '-' then cs else c :: cs) = rest at h hsplit
      -- then as many digits as there are, at least one
      by_cases hne : rest.takeWhile Char.isDigit = []
      · rw [if_pos hne] at h
        exact absurd h (by simp)
      · rw [if_neg hne, Option.some.injEq] at h
        refine ⟨ws, sign, _, rest.dropWhile Char.isDigit, ?_, hws, hsign, hne,
          fun c hc => List.mem_takeWhile_imp hc, head?_dropWhile_any _ _, ?_⟩
        · rw [List.takeWhile_append_dropWhile, ← hsplit]
        · rw [← h, signedValue]
          simp only [hminus, decide_eq_true_eq]
  · rintro ⟨ws, sign, digits, tail, rfl, hws, hsign, hne, hdigits, htail, rfl⟩
    -- a first digit is neither white space nor a sign
    obtain ⟨d, ds, rfl⟩ := List.exists_cons_of_ne_nil hne
    have hd := hdigits d List.mem_cons_self
    have hspace := kernelIsspace_of_isDigit hd
    have hminus := (not_special_of_isDigit hd).2.1
    unfold kernelInt
    rcases hsign with rfl | rfl
    · rw [dropWhile_append_of_head hws (by simp [hspace])]
      simp only [List.nil_append, List.cons_append, if_neg hminus]
      rw [← List.cons_append, takeWhile_append_of_head hdigits htail, if_neg hne]
      simp [signedValue]
    · rw [dropWhile_append_of_head hws (by simp; decide)]
      simp only [List.singleton_append, if_pos]
      rw [takeWhile_append_of_head hdigits htail, if_neg hne]
      simp [signedValue]

/-- A blank before `%d` changes nothing. -/
theorem sscanfInt_number (str : CStr) : sscanfInt (' ' :: "%d".toList) str = kernelInt str := by
  have hconv : sscanfInt "%d".toList (str.dropWhile kernelIsspace)
      = kernelInt (str.dropWhile kernelIsspace) := rfl
  rw [sscanfInt_blank, hconv, kernelInt, kernelInt, List.dropWhile_idempotent]

/-- The number is parsed, so "adapter 10" is another adapter, and the name's tail
does not matter. -/
example : astralIsSensorAdapter ⟨0, 3, "NVIDIA i2c adapter 1 at 1:00.0".toList, none⟩ = true ∧
    astralIsSensorAdapter ⟨0, 3, "NVIDIA i2c adapter 10 at 1:00.0".toList, none⟩ = false := by
  decide

end Astral
