import AstralHwmon.Oracle.Buses
import AstralHwmon.Oracle.Hwmon
import Mathlib.Data.Finset.Sort
import Mathlib.Data.Int.Bitwise

/-!
# The oracle's walks over sysfs

`src/astral_oracle/discover.py` finds a bus in the files of a machine: its PCI devices, the
adapters under each, the flat list of all adapters. A walk reads as it goes, and skips what
it cannot read. A name that is not UTF-8 can be read, and ends the search for the sensor with
an exception.

A `Board` is what the kernel has, the devices and the adapters that hang off them, and
`Board.ShownBy` says that a machine's sysfs shows it, in whatever order directories are
listed. What the walks find is then a matter of the board alone: `findAstralAdapter_eq` is
one search of its adapters in one order, `mem_nvidiaAdapters` and `mem_allAdapters` are sets
of their numbers, and the searches for a foreign and for a chipless adapter take the least
number of such.
-/

open CText

namespace Astral.Oracle

/-! ### The walks -/

section Walks

variable {W : Type*} (host : Host W)

/-- `_read_hex`. -/
def readHex (path : CStr) (w : W) : Option ℤ × W :=
  match readText host path w with
  -- an `OSError` and a `ValueError` are both caught
  | (.error _, w) => (none, w)
  | (.ok text, w) => ((pyHex (strip text)).toOption, w)

/-- The name of an i2c entry, up to its number. -/
def i2cPrefix : CStr := "i2c-".toList

/-- `glob("i2c-*")`, which is empty where there is no directory. -/
def globI2c (dir : CStr) (w : W) : List CStr × W :=
  match host.readDir dir w with
  | (none, w) => ([], w)
  | (some ents, w) => (ents.filter fun ent => i2cPrefix.isPrefixOf ent, w)

/-- `removeprefix("i2c-")`. -/
def removePrefix (ent : CStr) : CStr :=
  if i2cPrefix.isPrefixOf ent then ent.drop i2cPrefix.length else ent

/-- A subsystem as one integer. -/
def subsystemOf (subDevice subVendor : ℤ) : ℤ := Int.lor (subDevice <<< (16 : ℕ)) subVendor

/-- An integer as `:#010x` formats it. -/
def fmtSubsystem (n : ℤ) : CStr :=
  -- the sign and the prefix count in the width of ten
  if n < 0 then
    "-0x".toList ++ List.replicate (7 - (Nat.toDigits 16 n.natAbs).length) '0' ++
      Nat.toDigits 16 n.natAbs
  else fmtDword n.natAbs

/-- The model `_matching_devices` yields for a subsystem, if it yields one. -/
def subsystemModel (subsystem : ℤ) (allowUnknown : Bool) : Option CStr :=
  -- the keys of the table are positive
  match if subsystem < 0 then none else astralSubsystemIds.lookup subsystem.natAbs with
  | some model => some model
  | none =>
    if !allowUnknown then none
    else some ("unknown (".toList ++ fmtSubsystem subsystem ++ ")".toList)

/-- `_nvidia_devices` and `_matching_devices` on one device: its model, if it is yielded. -/
def matchDevice (allowUnknown : Bool) (dev : CStr) (w : W) : Option CStr × W :=
  match readHex host (entryPath dev "vendor".toList) w with
  | (vendor, w) =>
    if vendor ≠ some (nvidiaVendor : ℤ) then (none, w)
    else
      -- both words are read before either is looked at
      match readHex host (entryPath dev "subsystem_vendor".toList) w with
      | (subVendor, w) =>
        match readHex host (entryPath dev "subsystem_device".toList) w with
        | (subDevice, w) =>
          match subVendor, subDevice with
          | some subVendor, some subDevice =>
            (subsystemModel (subsystemOf subDevice subVendor) allowUnknown, w)
          | _, _ => (none, w)

/-- The inner loop of `find_astral_adapter`, over the adapters of a device. -/
def adapterLoop (dev : CStr) : List CStr → W → Except SysfsError (Option ℤ) × W
  | [], w => (.ok none, w)
  | ent :: ents, w =>
    match readText host (entryPath (entryPath dev ent) "name".toList) w with
    -- an adapter without a readable name is passed over; one with a name that is no text is not
    | (.error .osError, w) => adapterLoop dev ents w
    | (.error e, w) => (.error e, w)
    | (.ok text, w) =>
      if adapterIndex (strip text) = some adapterIndexWanted then
        -- an entry whose name ends in no number raises too
        ((pyInt (removePrefix ent)).map some, w)
      else adapterLoop dev ents w

/-- The outer loop of `find_astral_adapter`, over the PCI devices. -/
def deviceLoop (allowUnknown : Bool) : List CStr → W → Except SysfsError (Option ℤ) × W
  | [], w => (.ok none, w)
  | dev :: devs, w =>
    match matchDevice host allowUnknown dev w with
    | (none, w) => deviceLoop allowUnknown devs w
    | (some _, w) =>
      match globI2c host dev w with
      | (ents, w) =>
        match adapterLoop host dev (ents.insertionSort fun a b => strcmpLe a b = true) w with
        | (.ok none, w) => deviceLoop allowUnknown devs w
        | found => found

/-- Where the PCI devices are. -/
def pciDir (sysfsRoot : CStr) : CStr := sysfsRoot ++ "/bus/pci/devices".toList

/-- Where every adapter is. -/
def i2cDir (sysfsRoot : CStr) : CStr := sysfsRoot ++ "/bus/i2c/devices".toList

/-- The PCI devices, sorted; none where sysfs is absent. -/
def pciDevices (sysfsRoot : CStr) (w : W) : List CStr × W :=
  match iterdir host (pciDir sysfsRoot) w with
  | (none, w) => ([], w)
  | (some devs, w) => (devs.insertionSort fun a b => strcmpLe a b = true, w)

/-- `find_astral_adapter`. -/
def findAstralAdapter (sysfsRoot : CStr) (allowUnknown : Bool) (w : W) :
    Except SysfsError (Option ℤ) × W :=
  match pciDevices host sysfsRoot w with
  | (devs, w) => deviceLoop host allowUnknown devs w

/-- `_adapter_numbers`. -/
def adapterNumbers (ents : List CStr) : Finset ℕ :=
  (ents.filterMap fun ent =>
    -- `isdigit` is false of the empty text
    if removePrefix ent ≠ [] ∧ (removePrefix ent).all Char.isDigit = true then
      some (Nat.ofDigitChars 10 (removePrefix ent) 0)
    else none).toFinset

/-- The loop of `nvidia_adapters`. -/
def nvidiaLoop : List CStr → Finset ℕ → W → Finset ℕ × W
  | [], found, w => (found, w)
  | dev :: devs, found, w =>
    match readHex host (entryPath dev "vendor".toList) w with
    | (vendor, w) =>
      if vendor ≠ some (nvidiaVendor : ℤ) then nvidiaLoop devs found w
      else
        match globI2c host dev w with
        | (ents, w) => nvidiaLoop devs (found ∪ adapterNumbers ents) w

/-- `nvidia_adapters`. -/
def nvidiaAdapters (sysfsRoot : CStr) (w : W) : Finset ℕ × W :=
  match pciDevices host sysfsRoot w with
  | (devs, w) => nvidiaLoop host devs ∅ w

/-- `all_adapters`. -/
def allAdapters (sysfsRoot : CStr) (w : W) : Finset ℕ × W :=
  match globI2c host (i2cDir sysfsRoot) w with
  | (ents, w) => (adapterNumbers ents, w)

/-- The first of a set in order, or `None`. -/
def least (numbers : Finset ℕ) : Option ℕ := (numbers.sort (· ≤ ·)).head?

/-- `find_foreign_adapter`. -/
def findForeignAdapter (sysfsRoot : CStr) (w : W) : Option ℕ × W :=
  match allAdapters host sysfsRoot w with
  | (all, w) =>
    match nvidiaAdapters host sysfsRoot w with
    | (nvidia, w) => (least (all \ nvidia), w)

/-- `find_chipless_nvidia_adapter`. -/
def findChiplessNvidiaAdapter (sysfsRoot : CStr) (w : W) : Except SysfsError (Option ℕ) × W :=
  match findAstralAdapter host sysfsRoot false w with
  | (.error e, w) => (.error e, w)
  | (.ok sensor, w) =>
    match nvidiaAdapters host sysfsRoot w with
    | (nvidia, w) => (.ok (least (nvidia.filter fun n => sensor ≠ some (n : ℤ))), w)

end Walks

/-! ### What the files show -/

/-- A PCI device, and the adapters right under it. -/
structure PciNode where
  slot : CStr
  pdev : PciDev
  adapters : List I2cAdapter
  parent : ∀ adap ∈ adapters, adap.parent = some (.pci pdev)

/-- The devices of a machine and its other adapters, with each number used once. -/
structure Board where
  nodes : List PciNode
  others : List I2cAdapter
  parent : ∀ adap ∈ others, ∀ pdev, adap.parent ≠ some (.pci pdev)
  numbers : ((nodes.flatMap PciNode.adapters ++ others).map I2cAdapter.nr).Nodup
  /-- A number is an `int` of the kernel's. -/
  nr_lt : ∀ adap ∈ nodes.flatMap PciNode.adapters ++ others, adap.nr < 2 ^ 31

/-- Every adapter of a machine. -/
def Board.adapters (b : Board) : List I2cAdapter := b.nodes.flatMap PciNode.adapters ++ b.others

/-- A number is one adapter's. -/
theorem Board.eq_of_nr (b : Board) {adap adap' : I2cAdapter} (h : adap ∈ b.adapters)
    (h' : adap' ∈ b.adapters) (hnr : adap.nr = adap'.nr) : adap = adap' :=
  List.inj_on_of_nodup_map b.numbers h h' hnr

/-- An adapter that hangs off a device of the vendor, whatever its subsystem. -/
def OnNvidia (adap : I2cAdapter) : Prop :=
  ∃ pdev, adap.parent = some (.pci pdev) ∧ pdev.vendor = 0x10de

/-- The adapters on the vendor's devices have names of ASCII. -/
def Board.NamesAscii (b : Board) : Prop :=
  ∀ adap ∈ b.adapters, OnNvidia adap → ∀ c ∈ adap.name, c.toNat < 128

/-- The directory of a device. -/
def PciNode.dir (sysfsRoot : CStr) (node : PciNode) : CStr := entryPath (pciDir sysfsRoot) node.slot

/-- The entry of an adapter. -/
def adapterEntry (adap : I2cAdapter) : CStr := i2cPrefix ++ fmtInt adap.nr

/-- A machine's sysfs shows a board, at any time: directories list their entries in some
order, beside entries of other kinds; and attributes hold what the kernel prints. -/
structure Board.ShownBy (b : Board) {W : Type*} (host : Host W) (sysfsRoot : CStr) : Prop where
  devices : ∀ w, ∃ ents, (host.readDir (pciDir sysfsRoot) w).1 = some ents ∧
    (ents.filter fun ent => ent ≠ ".".toList ∧ ent ≠ "..".toList).Perm (b.nodes.map PciNode.slot)
  vendor : ∀ node ∈ b.nodes, ∀ w,
    (host.readFile (entryPath (node.dir sysfsRoot) "vendor".toList) w).1
      = some (attrHex node.pdev.vendor)
  subsystemVendor : ∀ node ∈ b.nodes, ∀ w,
    (host.readFile (entryPath (node.dir sysfsRoot) "subsystem_vendor".toList) w).1
      = some (attrHex node.pdev.subsystemVendor)
  subsystemDevice : ∀ node ∈ b.nodes, ∀ w,
    (host.readFile (entryPath (node.dir sysfsRoot) "subsystem_device".toList) w).1
      = some (attrHex node.pdev.subsystemDevice)
  entries : ∀ node ∈ b.nodes, ∀ w, ∃ ents, (host.readDir (node.dir sysfsRoot) w).1 = some ents ∧
    (ents.filter fun ent => i2cPrefix.isPrefixOf ent).Perm (node.adapters.map adapterEntry)
  name : ∀ node ∈ b.nodes, ∀ adap ∈ node.adapters, ∀ w,
    (host.readFile (entryPath (entryPath (node.dir sysfsRoot) (adapterEntry adap))
      "name".toList) w).1 = some (adap.name ++ ['\n'])
  /-- The flat list has every adapter, and devices whose names are no numbers. -/
  all : ∀ w, ∃ ents, (host.readDir (i2cDir sysfsRoot) w).1 = some ents ∧
    (∀ adap ∈ b.adapters, adapterEntry adap ∈ ents) ∧
    ∀ ent ∈ ents, i2cPrefix.isPrefixOf ent = true →
      (∃ adap ∈ b.adapters, ent = adapterEntry adap) ∨
        ∃ c ∈ ent.drop i2cPrefix.length, c.isDigit = false

/-! ### Numbers and names -/

theorem isPrefixOf_adapterEntry (adap : I2cAdapter) :
    i2cPrefix.isPrefixOf (adapterEntry adap) = true :=
  List.isPrefixOf_iff_prefix.mpr (List.prefix_append _ _)

theorem removePrefix_adapterEntry (adap : I2cAdapter) :
    removePrefix (adapterEntry adap) = Nat.toDigits 10 adap.nr := by
  rw [removePrefix, if_pos (isPrefixOf_adapterEntry adap), adapterEntry, List.drop_left,
    fmtInt_of_nonneg (Int.natCast_nonneg _), Int.natAbs_natCast]

/-- A newline behind a text goes with the white space. -/
theorem strip_newline (s : CStr) : strip (s ++ ['\n']) = strip s := by
  have hback : ∀ t : CStr, rstrip (t ++ ['\n']) = rstrip t := by
    intro t
    rw [rstrip, List.rdropWhile_concat_pos _ _ _ (by decide)]
    rfl
  rw [strip, List.dropWhile_append]
  split
  next hempty =>
    rw [strip, List.isEmpty_iff.mp hempty]
    rfl
  next => rw [hback, strip]

/-- The numbers of a set of entries. -/
theorem mem_adapterNumbers {ents : List CStr} {n : ℕ} : n ∈ adapterNumbers ents ↔
    ∃ ent ∈ ents, removePrefix ent ≠ [] ∧ (∀ c ∈ removePrefix ent, c.isDigit = true) ∧
      Nat.ofDigitChars 10 (removePrefix ent) 0 = n := by
  rw [adapterNumbers, List.mem_toFinset, List.mem_filterMap]
  refine exists_congr fun ent => and_congr_right fun _ => ?_
  rw [← List.all_eq_true]
  split
  next h => rw [Option.some.injEq]; exact ⟨fun heq => ⟨h.1, h.2, heq⟩, fun hall => hall.2.2⟩
  next h => exact iff_of_false (by simp) fun hall => h ⟨hall.1, hall.2.1⟩

/-- The least of a set, if it is not empty. -/
theorem least_eq_some_iff {numbers : Finset ℕ} {n : ℕ} :
    least numbers = some n ↔ n ∈ numbers ∧ ∀ k ∈ numbers, n ≤ k := by
  have hsorted := numbers.pairwise_sort (· ≤ ·)
  have hmem : ∀ k, k ∈ numbers.sort (· ≤ ·) ↔ k ∈ numbers := fun k => Finset.mem_sort _
  unfold least
  -- the least number is the head of the sorted list
  cases hsort : numbers.sort (· ≤ ·) with
  | nil =>
    rw [hsort] at hmem
    exact iff_of_false (by simp) fun h => List.not_mem_nil ((hmem n).mpr h.1)
  | cons a rest =>
    rw [hsort] at hmem hsorted
    rw [List.head?_cons, Option.some.injEq]
    have hle : ∀ k ∈ numbers, a ≤ k := by
      intro k hk
      rcases List.mem_cons.mp ((hmem k).mpr hk) with rfl | hk
      · exact le_rfl
      · exact (List.pairwise_cons.mp hsorted).1 k hk
    constructor
    · rintro rfl
      exact ⟨(hmem a).mp List.mem_cons_self, hle⟩
    · rintro ⟨hn, hleast⟩
      exact le_antisymm (hle n hn) (hleast a ((hmem a).mp List.mem_cons_self))

/-! ### What the walks find -/

/-- The directories of the PCI devices are gone through in the order of their paths. -/
def Board.inOrder (b : Board) (sysfsRoot : CStr) : List PciNode :=
  b.nodes.insertionSort fun n n' => strcmpLe (n.dir sysfsRoot) (n'.dir sysfsRoot) = true

/-- The adapters of a device are gone through in the order of their entries. -/
def PciNode.inOrder (node : PciNode) : List I2cAdapter :=
  node.adapters.insertionSort fun a a' => strcmpLe (adapterEntry a) (adapterEntry a') = true

/-- The oracle's search accepts an adapter. -/
def acceptsAdapter (allowUnknown : Bool) (adap : I2cAdapter) : Bool :=
  match adap.parent with
  | some (.pci pdev) => accepts pdev allowUnknown adap.name
  | _ => false

/-- The adapter that the search finds. -/
def Board.sensor (b : Board) (sysfsRoot : CStr) (allowUnknown : Bool) : Option I2cAdapter :=
  ((b.inOrder sysfsRoot).flatMap PciNode.inOrder).find? (acceptsAdapter allowUnknown)

/-- Names in another order are sorted in the same way. -/
theorem insertionSort_perm {l l' : List CStr} (h : l.Perm l') :
    (l.insertionSort fun a b => strcmpLe a b = true)
      = l'.insertionSort fun a b => strcmpLe a b = true :=
  ((l.perm_insertionSort _).trans (h.trans (l'.perm_insertionSort _).symm)).eq_of_pairwise'
    (List.pairwise_insertionSort _ l) (List.pairwise_insertionSort _ l')

section Shown

variable {W : Type*} {host : Host W} {b : Board} {sysfsRoot : CStr}

theorem readHex_attrHex {path : CStr} {w : W} {n : UInt16}
    (h : (host.readFile path w).1 = some (attrHex n)) :
    (readHex host path w).1 = some (n.toNat : ℤ) := by
  rw [readHex]
  cases hread : host.readFile path w with
  | mk file w₁ =>
    rw [hread] at h
    obtain rfl : file = some (attrHex n) := h
    rw [readText_ascii hread (attrHex_ascii n)]
    dsimp only
    rw [pyHex_attrHex]
    rfl

theorem globI2c_eq {dir : CStr} {w : W} {ents : List CStr}
    (h : (host.readDir dir w).1 = some ents) :
    (globI2c host dir w).1 = ents.filter fun ent => i2cPrefix.isPrefixOf ent := by
  rw [globI2c]
  cases hread : host.readDir dir w with
  | mk found w₁ =>
    rw [hread] at h
    obtain rfl : found = some ents := h
    rfl

/-- The devices are gone through in one order, whatever order they are listed in. -/
theorem pciDevices_eq (h : b.ShownBy host sysfsRoot) (w : W) :
    (pciDevices host sysfsRoot w).1 = (b.inOrder sysfsRoot).map (PciNode.dir sysfsRoot) := by
  obtain ⟨ents, hlist, hperm⟩ := h.devices w
  have hdirs := hperm.map (entryPath (pciDir sysfsRoot))
  rw [List.map_map] at hdirs
  rw [Board.inOrder, List.map_insertionSort _ (fun a b => strcmpLe a b = true) _ _
    fun _ _ _ _ => Iff.rfl]
  rw [pciDevices, iterdir]
  cases hread : host.readDir (pciDir sysfsRoot) w with
  | mk found w₁ =>
    rw [hread] at hlist
    obtain rfl : found = some ents := hlist
    exact insertionSort_perm hdirs

/-- A pair of words makes one double word. -/
theorem subsystemModel_eq (pdev : PciDev) (allowUnknown : Bool) :
    (if (pdev.vendor.toNat : ℤ) ≠ nvidiaVendor then none
      else subsystemModel (subsystemOf pdev.subsystemDevice.toNat pdev.subsystemVendor.toNat)
        allowUnknown) = matchingDevice pdev allowUnknown := by
  have hdword : subsystemOf pdev.subsystemDevice.toNat pdev.subsystemVendor.toNat
      = ((pdev.subsystemDevice.toNat <<< 16 ||| pdev.subsystemVendor.toNat : ℕ) : ℤ) := rfl
  rw [matchingDevice, hdword, subsystemModel, if_neg (not_lt.mpr (Int.natCast_nonneg _)),
    fmtSubsystem, if_neg (not_lt.mpr (Int.natCast_nonneg _)), Int.natAbs_natCast]
  by_cases hnvidia : pdev.vendor.toNat = nvidiaVendor
  · exact (if_neg (not_not.mpr (congrArg Nat.cast hnvidia))).trans
      (if_neg (not_not.mpr hnvidia)).symm
  · exact (if_pos fun h => hnvidia (Nat.cast_inj.mp h)).trans (if_pos hnvidia).symm

/-- What the search makes of a device is what its words say. -/
theorem matchDevice_eq (h : b.ShownBy host sysfsRoot) {node : PciNode} (hnode : node ∈ b.nodes)
    (allowUnknown : Bool) (w : W) :
    (matchDevice host allowUnknown (node.dir sysfsRoot) w).1
      = matchingDevice node.pdev allowUnknown := by
  rw [← subsystemModel_eq, matchDevice]
  have hvendor := readHex_attrHex (h.vendor node hnode w)
  cases hread : readHex host (entryPath (node.dir sysfsRoot) "vendor".toList) w with
  | mk vendor w₁ =>
    rw [hread] at hvendor
    obtain rfl : vendor = some (node.pdev.vendor.toNat : ℤ) := hvendor
    dsimp only
    -- the subsystem is read only under the right vendor
    by_cases hnvidia : (node.pdev.vendor.toNat : ℤ) = nvidiaVendor
    · rw [if_neg (not_not.mpr (congrArg some hnvidia)), if_neg (not_not.mpr hnvidia)]
      have hsub := readHex_attrHex (h.subsystemVendor node hnode w₁)
      cases hread : readHex host (entryPath (node.dir sysfsRoot) "subsystem_vendor".toList) w₁ with
      | mk subVendor w₂ =>
        rw [hread] at hsub
        obtain rfl : subVendor = some (node.pdev.subsystemVendor.toNat : ℤ) := hsub
        dsimp only
        have hsub := readHex_attrHex (h.subsystemDevice node hnode w₂)
        cases hread :
          readHex host (entryPath (node.dir sysfsRoot) "subsystem_device".toList) w₂ with
        | mk subDevice w₃ =>
          rw [hread] at hsub
          obtain rfl : subDevice = some (node.pdev.subsystemDevice.toNat : ℤ) := hsub
          rfl
    · rw [if_pos fun heq => hnvidia (Option.some.inj heq), if_pos hnvidia]

/-- The number of an adapter is read off its entry. -/
theorem pyInt_adapterEntry {adap : I2cAdapter} (hnr : adap.nr < 2 ^ 31) :
    pyInt (removePrefix (adapterEntry adap)) = .ok (adap.nr : ℤ) := by
  have hlen : (Nat.toDigits 10 (adap.nr : ℤ).natAbs).length ≤ maxStrDigits := by
    rw [Int.natAbs_natCast]
    refine ((Nat.length_toDigits_le_iff (by decide) (by decide)).mpr ?_).trans
      (show 10 ≤ maxStrDigits by decide)
    exact hnr.trans (by decide)
  have hround := pyInt_fmtInt hlen
  rwa [fmtInt_of_nonneg (Int.natCast_nonneg _), Int.natAbs_natCast,
    ← removePrefix_adapterEntry] at hround

/-- The adapters of a device are searched for the first whose name has the index. -/
theorem adapterLoop_eq (h : b.ShownBy host sysfsRoot) {node : PciNode} (hnode : node ∈ b.nodes)
    {adaps : List I2cAdapter} (hadaps : ∀ adap ∈ adaps, adap ∈ node.adapters)
    (hascii : ∀ adap ∈ adaps, ∀ c ∈ adap.name, c.toNat < 128) (w : W) :
    (adapterLoop host (node.dir sysfsRoot) (adaps.map adapterEntry) w).1
      = .ok ((adaps.find? fun adap =>
          adapterIndex (strip adap.name) == some adapterIndexWanted).map
          fun adap => (adap.nr : ℤ)) := by
  -- on the adapters still to look at, in any world; the board shows the same in all of them
  induction adaps generalizing w with
  | nil => rfl
  | cons adap adaps ih =>
    obtain ⟨hadap, hrest⟩ := List.forall_mem_cons.mp hadaps
    obtain ⟨htext, htexts⟩ := List.forall_mem_cons.mp hascii
    have hname := h.name node hnode adap hadap w
    have hline : ∀ c ∈ adap.name ++ ['\n'], c.toNat < 128 :=
      List.forall_mem_append.mpr ⟨htext, List.forall_mem_singleton.mpr (by decide)⟩
    rw [List.map_cons, adapterLoop]
    cases hread : host.readFile
        (entryPath (entryPath (node.dir sysfsRoot) (adapterEntry adap)) "name".toList) w with
    | mk file w₁ =>
      rw [hread] at hname
      obtain rfl : file = some (adap.name ++ ['\n']) := hname
      rw [readText_ascii hread hline]
      dsimp only
      rw [strip_newline, List.find?_cons]
      by_cases hindex : adapterIndex (strip adap.name) = some adapterIndexWanted
      · have hnr : adap.nr < 2 ^ 31 := b.nr_lt adap
          (List.mem_append_left _ (List.mem_flatMap.mpr ⟨node, hnode, hadap⟩))
        rw [if_pos hindex, beq_iff_eq.mpr hindex, pyInt_adapterEntry hnr]
        rfl
      · rw [if_neg hindex, beq_eq_false_iff_ne.mpr hindex]
        exact ih hrest htexts w₁

/-- What is accepted under a device: its adapters with the index, if it is matched. -/
theorem find_acceptsAdapter (node : PciNode) (allowUnknown : Bool) {adaps : List I2cAdapter}
    (hadaps : ∀ adap ∈ adaps, adap ∈ node.adapters) :
    adaps.find? (acceptsAdapter allowUnknown)
      = if (matchingDevice node.pdev allowUnknown).isSome then
          adaps.find? fun adap => adapterIndex (strip adap.name) == some adapterIndexWanted
        else none := by
  induction adaps with
  | nil => simp
  | cons adap adaps ih =>
    obtain ⟨hadap, hrest⟩ := List.forall_mem_cons.mp hadaps
    rw [List.find?_cons, List.find?_cons, ih hrest, acceptsAdapter, node.parent adap hadap]
    dsimp only
    rw [accepts]
    cases (matchingDevice node.pdev allowUnknown).isSome with
    | true => simp
    | false => simp

theorem mem_inOrder {node : PciNode} {adap : I2cAdapter} :
    adap ∈ node.inOrder ↔ adap ∈ node.adapters :=
  (List.perm_insertionSort _ _).mem_iff

theorem mem_walk {adap : I2cAdapter} :
    adap ∈ (b.inOrder sysfsRoot).flatMap PciNode.inOrder ↔
      adap ∈ b.nodes.flatMap PciNode.adapters := by
  simp only [List.mem_flatMap, mem_inOrder, Board.inOrder, List.mem_insertionSort]

/-- The adapter found is under a device. -/
theorem mem_of_sensor {allowUnknown : Bool} {adap : I2cAdapter}
    (h : b.sensor sysfsRoot allowUnknown = some adap) : adap ∈ b.adapters :=
  List.mem_append_left _ (mem_walk.mp (List.mem_of_find?_eq_some h))

/-- The entries of a device are sorted as its adapters are. -/
theorem globI2c_inOrder (h : b.ShownBy host sysfsRoot) {node : PciNode} (hnode : node ∈ b.nodes)
    (w : W) : ((globI2c host (node.dir sysfsRoot) w).1.insertionSort
        fun a b => strcmpLe a b = true) = node.inOrder.map adapterEntry := by
  obtain ⟨ents, hlist, hperm⟩ := h.entries node hnode w
  rw [globI2c_eq hlist, insertionSort_perm hperm, PciNode.inOrder,
    List.map_insertionSort _ (fun a b => strcmpLe a b = true) _ _ fun _ _ _ _ => Iff.rfl]

/-- Over devices of the board, the loops are one search of their adapters. -/
theorem deviceLoop_eq (h : b.ShownBy host sysfsRoot) (hascii : b.NamesAscii) (allowUnknown : Bool)
    {nodes : List PciNode}
    (hnodes : ∀ node ∈ nodes, node ∈ b.nodes) (w : W) :
    (deviceLoop host allowUnknown (nodes.map (PciNode.dir sysfsRoot)) w).1
      = .ok (((nodes.flatMap PciNode.inOrder).find? (acceptsAdapter allowUnknown)).map
          fun adap => (adap.nr : ℤ)) := by
  -- on the devices still to come, in any world
  induction nodes generalizing w with
  | nil => rfl
  | cons node nodes ih =>
    obtain ⟨hnode, hrest⟩ := List.forall_mem_cons.mp hnodes
    have hmatch := matchDevice_eq h hnode allowUnknown w
    rw [List.map_cons, deviceLoop, List.flatMap_cons, List.find?_append,
      find_acceptsAdapter node allowUnknown fun _ => mem_inOrder.mp]
    cases hstep : matchDevice host allowUnknown (node.dir sysfsRoot) w with
    | mk model w₁ =>
      rw [hstep] at hmatch
      obtain rfl : model = matchingDevice node.pdev allowUnknown := hmatch
      cases hmodel : matchingDevice node.pdev allowUnknown with
      -- a device that is not matched has no adapter that is accepted
      | none => exact ih hrest w₁
      | some model =>
        -- the names that are read are those of adapters on the vendor's devices
        have hnvidia : node.pdev.vendor = 0x10de :=
          ((matchingDevice_admitted _ _).mp (by rw [hmodel]; rfl)).1
        have hnames : ∀ adap ∈ node.inOrder, ∀ c ∈ adap.name, c.toNat < 128 := fun adap hadap =>
          hascii adap
            (List.mem_append_left _ (List.mem_flatMap.mpr ⟨node, hnode, mem_inOrder.mp hadap⟩))
            ⟨node.pdev, node.parent adap (mem_inOrder.mp hadap), hnvidia⟩
        have hloop := adapterLoop_eq h hnode (fun _ => mem_inOrder.mp) hnames
          (globI2c host (node.dir sysfsRoot) w₁).2
        dsimp only
        rw [globI2c_inOrder h hnode w₁]
        cases hfound : adapterLoop host (node.dir sysfsRoot) (node.inOrder.map adapterEntry)
            (globI2c host (node.dir sysfsRoot) w₁).2 with
        | mk found w₂ =>
          rw [hfound] at hloop
          cases hfind : node.inOrder.find? fun adap =>
              adapterIndex (strip adap.name) == some adapterIndexWanted with
          | none =>
            rw [hfind] at hloop
            obtain rfl : found = .ok none := hloop
            rw [Option.isSome_some, if_pos rfl, Option.none_or]
            exact ih hrest w₂
          | some adap =>
            rw [hfind] at hloop
            obtain rfl : found = .ok (some (adap.nr : ℤ)) := hloop
            rfl

/-- The search for the sensor is one search of the adapters under the PCI devices. -/
theorem findAstralAdapter_eq (h : b.ShownBy host sysfsRoot) (hascii : b.NamesAscii)
    (allowUnknown : Bool) (w : W) :
    (findAstralAdapter host sysfsRoot allowUnknown w).1
      = .ok ((b.sensor sysfsRoot allowUnknown).map fun adap => (adap.nr : ℤ)) := by
  have hdevs := pciDevices_eq h w
  rw [findAstralAdapter]
  cases hlist : pciDevices host sysfsRoot w with
  | mk devs w₁ =>
    rw [hlist] at hdevs
    obtain rfl : devs = (b.inOrder sysfsRoot).map (PciNode.dir sysfsRoot) := hdevs
    exact deviceLoop_eq h hascii allowUnknown (fun _ => (List.perm_insertionSort _ _).mem_iff.mp) w₁

/-! ### The sets of numbers -/

/-- Of entries that are adapters' or have no number, the numbers are the adapters'. -/
theorem mem_adapterNumbers_iff {adaps : List I2cAdapter} {ents : List CStr}
    (hall : ∀ adap ∈ adaps, adapterEntry adap ∈ ents)
    (hents : ∀ ent ∈ ents, (∃ adap ∈ adaps, ent = adapterEntry adap) ∨
      ∃ c ∈ removePrefix ent, c.isDigit = false) {n : ℕ} :
    n ∈ adapterNumbers ents ↔ ∃ adap ∈ adaps, adap.nr = n := by
  rw [mem_adapterNumbers]
  constructor
  · rintro ⟨ent, hent, -, hdigits, rfl⟩
    rcases hents ent hent with ⟨adap, hadap, rfl⟩ | ⟨c, hc, hno⟩
    · exact ⟨adap, hadap, by rw [removePrefix_adapterEntry, Nat.ofDigitChars_ten_toDigits]⟩
    · exact absurd (hdigits c hc) (by simp [hno])
  · rintro ⟨adap, hadap, rfl⟩
    refine ⟨adapterEntry adap, hall adap hadap, ?_⟩
    rw [removePrefix_adapterEntry]
    exact ⟨Nat.toDigits_ne_nil, fun c hc => isDigit_of_mem_toDigits hc,
      Nat.ofDigitChars_ten_toDigits⟩

theorem nvidiaLoop_eq (h : b.ShownBy host sysfsRoot) {nodes : List PciNode}
    (hnodes : ∀ node ∈ nodes, node ∈ b.nodes) (found : Finset ℕ) (w : W) {n : ℕ} :
    n ∈ (nvidiaLoop host (nodes.map (PciNode.dir sysfsRoot)) found w).1 ↔
      n ∈ found ∨ ∃ node ∈ nodes, node.pdev.vendor = 0x10de ∧
        ∃ adap ∈ node.adapters, adap.nr = n := by
  -- on the devices still to come, with the numbers found so far
  induction nodes generalizing found w with
  | nil => simp [nvidiaLoop]
  | cons node nodes ih =>
    obtain ⟨hnode, hrest⟩ := List.forall_mem_cons.mp hnodes
    have hvendor := readHex_attrHex (h.vendor node hnode w)
    rw [List.map_cons, nvidiaLoop]
    cases hread : readHex host (entryPath (node.dir sysfsRoot) "vendor".toList) w with
    | mk vendor w₁ =>
      rw [hread] at hvendor
      obtain rfl : vendor = some (node.pdev.vendor.toNat : ℤ) := hvendor
      have hiff : some (node.pdev.vendor.toNat : ℤ) = some (nvidiaVendor : ℤ) ↔
          node.pdev.vendor = 0x10de := by
        rw [Option.some.injEq, Nat.cast_inj]
        exact UInt16.toNat_inj (b := 0x10de)
      dsimp only
      by_cases hnvidia : node.pdev.vendor = 0x10de
      · obtain ⟨ents, hlist, hperm⟩ := h.entries node hnode w₁
        have hmem : ∀ {ent}, ent ∈ (globI2c host (node.dir sysfsRoot) w₁).1 ↔
            ∃ adap ∈ node.adapters, adapterEntry adap = ent := by
          intro ent
          rw [globI2c_eq hlist, hperm.mem_iff, List.mem_map]
        -- the entries are the adapters', so their numbers are the entries'
        have hnumbers : n ∈ adapterNumbers (globI2c host (node.dir sysfsRoot) w₁).1 ↔
            ∃ adap ∈ node.adapters, adap.nr = n :=
          mem_adapterNumbers_iff (fun adap hadap => hmem.mpr ⟨adap, hadap, rfl⟩)
            fun ent hent => Or.inl ((hmem.mp hent).imp fun adap hadap => ⟨hadap.1, hadap.2.symm⟩)
        rw [if_neg (not_not.mpr (hiff.mpr hnvidia)), ih hrest, Finset.mem_union, hnumbers,
          List.exists_mem_cons_iff, or_assoc]
        simp only [hnvidia, true_and]
      · rw [if_pos fun heq => hnvidia (hiff.mp heq), ih hrest, List.exists_mem_cons_iff]
        simp only [hnvidia, false_and, false_or]

/-- The numbers of the adapters on the vendor's devices. -/
theorem mem_nvidiaAdapters (h : b.ShownBy host sysfsRoot) (w : W) {n : ℕ} :
    n ∈ (nvidiaAdapters host sysfsRoot w).1 ↔ ∃ adap ∈ b.adapters, OnNvidia adap ∧ adap.nr = n := by
  have hdevs := pciDevices_eq h w
  rw [nvidiaAdapters]
  cases hlist : pciDevices host sysfsRoot w with
  | mk devs w₁ =>
    rw [hlist] at hdevs
    obtain rfl : devs = (b.inOrder sysfsRoot).map (PciNode.dir sysfsRoot) := hdevs
    have hmem : ∀ node, node ∈ b.inOrder sysfsRoot ↔ node ∈ b.nodes :=
      fun node => (List.perm_insertionSort _ _).mem_iff
    dsimp only
    rw [nvidiaLoop_eq h fun node => (hmem node).mp]
    -- an adapter on a vendor's device is under it, and no other adapter is on one
    constructor
    · rintro (hnone | ⟨node, hnode, hnvidia, adap, hadap, hnr⟩)
      · exact absurd hnone (Finset.notMem_empty n)
      · have hboard : adap ∈ b.adapters :=
          List.mem_append_left _ (List.mem_flatMap.mpr ⟨node, (hmem node).mp hnode, hadap⟩)
        exact ⟨adap, hboard, ⟨node.pdev, node.parent adap hadap, hnvidia⟩, hnr⟩
    · rintro ⟨adap, hadap, ⟨pdev, hparent, hnvidia⟩, hnr⟩
      rcases List.mem_append.mp hadap with hadap | hadap
      · obtain ⟨node, hnode, hadap⟩ := List.mem_flatMap.mp hadap
        have hpdev := (node.parent adap hadap).symm.trans hparent
        rw [Option.some.injEq, ParentDevice.pci.injEq] at hpdev
        exact Or.inr ⟨node, (hmem node).mpr hnode, hpdev ▸ hnvidia, adap, hadap, hnr⟩
      · exact absurd hparent (b.parent adap hadap pdev)

/-- The numbers of all adapters. -/
theorem mem_allAdapters (h : b.ShownBy host sysfsRoot) (w : W) {n : ℕ} :
    n ∈ (allAdapters host sysfsRoot w).1 ↔ ∃ adap ∈ b.adapters, adap.nr = n := by
  obtain ⟨ents, hlist, hall, hents⟩ := h.all w
  have hglob := globI2c_eq hlist
  rw [allAdapters]
  cases hread : globI2c host (i2cDir sysfsRoot) w with
  | mk found w₁ =>
    rw [hread] at hglob
    obtain rfl : found = ents.filter fun ent => i2cPrefix.isPrefixOf ent := hglob
    refine mem_adapterNumbers_iff (fun adap hadap => ?_) fun ent hent => ?_
    · exact List.mem_filter.mpr ⟨hall adap hadap, isPrefixOf_adapterEntry adap⟩
    · obtain ⟨hent, hpre⟩ := List.mem_filter.mp hent
      rw [removePrefix, if_pos hpre]
      exact hents ent hent hpre

/-- The least number of the adapters of a kind. -/
theorem least_eq_some_iff_of_mem {numbers : Finset ℕ} {kind : I2cAdapter → Prop}
    (hmem : ∀ k, k ∈ numbers ↔ ∃ adap ∈ b.adapters, kind adap ∧ adap.nr = k) {n : ℕ} :
    least numbers = some n ↔ (∃ adap ∈ b.adapters, kind adap ∧ adap.nr = n) ∧
      ∀ adap ∈ b.adapters, kind adap → n ≤ adap.nr := by
  rw [least_eq_some_iff, hmem]
  refine and_congr_right fun _ => ⟨fun hle adap hadap hkind => ?_, fun hle k hk => ?_⟩
  · exact hle adap.nr ((hmem _).mpr ⟨adap, hadap, hkind, rfl⟩)
  · obtain ⟨adap, hadap, hkind, rfl⟩ := (hmem k).mp hk
    exact hle adap hadap hkind

/-- An adapter that hangs off no device of the vendor: the least number of such. -/
theorem findForeignAdapter_eq_some_iff (h : b.ShownBy host sysfsRoot) (w : W) {n : ℕ} :
    (findForeignAdapter host sysfsRoot w).1 = some n ↔
      (∃ adap ∈ b.adapters, ¬ OnNvidia adap ∧ adap.nr = n) ∧
        ∀ adap ∈ b.adapters, ¬ OnNvidia adap → n ≤ adap.nr := by
  have hleast : (findForeignAdapter host sysfsRoot w).1 = least ((allAdapters host sysfsRoot w).1 \
      (nvidiaAdapters host sysfsRoot (allAdapters host sysfsRoot w).2).1) := rfl
  rw [hleast, least_eq_some_iff_of_mem]
  intro k
  rw [Finset.mem_sdiff, mem_allAdapters h, mem_nvidiaAdapters h]
  constructor
  · rintro ⟨⟨adap, hadap, hnr⟩, hnot⟩
    exact ⟨adap, hadap, fun hnvidia => hnot ⟨adap, hadap, hnvidia, hnr⟩, hnr⟩
  · rintro ⟨adap, hadap, hforeign, hnr⟩
    refine ⟨⟨adap, hadap, hnr⟩, ?_⟩
    rintro ⟨adap', hadap', hnvidia, hnr'⟩
    -- a number is one adapter's
    exact hforeign (b.eq_of_nr hadap' hadap (hnr'.trans hnr.symm) ▸ hnvidia)

/-- An adapter of the vendor's that is not the one the search for the sensor finds: the least
number of such, if that search raises nothing. -/
theorem findChiplessNvidiaAdapter_eq_some_iff (h : b.ShownBy host sysfsRoot) (w : W) {n : ℕ} :
    (findChiplessNvidiaAdapter host sysfsRoot w).1 = .ok (some n) ↔
      ∃ sensor, (findAstralAdapter host sysfsRoot false w).1 = .ok sensor ∧
        (∃ adap ∈ b.adapters, (OnNvidia adap ∧ sensor ≠ some (adap.nr : ℤ)) ∧ adap.nr = n) ∧
          ∀ adap ∈ b.adapters, OnNvidia adap ∧ sensor ≠ some (adap.nr : ℤ) → n ≤ adap.nr := by
  rw [findChiplessNvidiaAdapter]
  cases hfound : findAstralAdapter host sysfsRoot false w with
  | mk sensor w₁ =>
    cases sensor with
    | error e => exact iff_of_false (by simp) (by simp)
    | ok sensor =>
      -- the numbers of the vendor's adapters, but for the sensor's
      have hleast : least ((nvidiaAdapters host sysfsRoot w₁).1.filter fun k =>
            sensor ≠ some (k : ℤ)) = some n ↔
          (∃ adap ∈ b.adapters, (OnNvidia adap ∧ sensor ≠ some (adap.nr : ℤ)) ∧ adap.nr = n) ∧
            ∀ adap ∈ b.adapters, OnNvidia adap ∧ sensor ≠ some (adap.nr : ℤ) → n ≤ adap.nr := by
        refine least_eq_some_iff_of_mem fun k => ?_
        rw [Finset.mem_filter, mem_nvidiaAdapters h]
        constructor
        · rintro ⟨⟨adap, hadap, hnvidia, rfl⟩, hne⟩
          exact ⟨adap, hadap, ⟨hnvidia, hne⟩, rfl⟩
        · rintro ⟨adap, hadap, ⟨hnvidia, hne⟩, rfl⟩
          exact ⟨⟨adap, hadap, hnvidia, rfl⟩, hne⟩
      dsimp only
      rw [Except.ok.injEq, hleast]
      constructor
      · exact fun hn => ⟨sensor, rfl, hn⟩
      · rintro ⟨sensor', heq, hn⟩
        obtain rfl := Except.ok.inj heq
        exact hn

end Shown

/-! ### The search and the driver's choice -/

/-- On the vendor's devices, the names that one side takes and the other does not are not
there: what `buses_agree` asks for. -/
def Board.Regular (b : Board) : Prop :=
  ∀ adap ∈ b.adapters, OnNvidia adap → (∀ c ∈ adap.name, c.toNat < 128) ∧
    (LooseName adap.name → StrictName adap.name) ∧ ¬ PaddedName adap.name

theorem Board.Regular.ascii {b : Board} (h : b.Regular) : b.NamesAscii :=
  fun adap hadap hnvidia => (h adap hadap hnvidia).1

/-- On a regular board the search accepts what the driver selects. -/
theorem acceptsAdapter_iff {b : Board} (hnames : b.Regular) {adap : I2cAdapter}
    (hadap : adap ∈ b.adapters) (allowUnknown : Bool) :
    acceptsAdapter allowUnknown adap = true ↔ selects adap allowUnknown = true := by
  unfold acceptsAdapter
  cases hparent : adap.parent with
  | none => simp [selects, astralCardMatches, hparent]
  | some parent =>
    cases parent with
    | other => simp [selects, astralCardMatches, hparent]
    | pci pdev =>
      dsimp only
      rw [accepts, selects, Bool.and_eq_true, Bool.and_eq_true, matchingDevice_admitted,
        astralCardMatches_admitted hparent, beq_iff_eq, adapterIndex_strip_iff]
      refine and_congr_right fun hadmitted => ?_
      obtain ⟨hascii, hstrict, hpadded⟩ := hnames adap hadap ⟨pdev, hparent, hadmitted.1⟩
      rw [astralIsSensorAdapter_iff adap hascii]
      exact ⟨fun h => (h.resolve_right hpadded).loose, fun h => Or.inl (hstrict h)⟩

/-- What is found is an adapter the driver selects. -/
theorem Board.sensor_eq_some {b : Board} (hnames : b.Regular) {sysfsRoot : CStr}
    {allowUnknown : Bool} {adap : I2cAdapter} (h : b.sensor sysfsRoot allowUnknown = some adap) :
    adap ∈ b.adapters ∧ selects adap allowUnknown = true := by
  have hboard := mem_of_sensor h
  exact ⟨hboard, (acceptsAdapter_iff hnames hboard allowUnknown).mp (List.find?_some h)⟩

/-- Where none is found, the driver selects none. -/
theorem Board.sensor_eq_none {b : Board} (hnames : b.Regular) {sysfsRoot : CStr}
    {allowUnknown : Bool} (h : b.sensor sysfsRoot allowUnknown = none) {adap : I2cAdapter}
    (hadap : adap ∈ b.adapters) : selects adap allowUnknown = false := by
  by_contra hselects
  rw [Bool.not_eq_false] at hselects
  have haccepts := (acceptsAdapter_iff hnames hadap allowUnknown).mpr hselects
  rcases List.mem_append.mp hadap with hnode | hother
  · exact List.find?_eq_none.mp h adap (mem_walk.mpr hnode) haccepts
  · -- an adapter off the PCI devices has no parent to be accepted for
    unfold acceptsAdapter at haccepts
    split at haccepts
    next pdev hparent => exact b.parent adap hother pdev hparent
    next => exact absurd haccepts (by decide)

/-! ### A machine with one card -/

/-- The sysfs of a board, and nothing else. -/
def Board.host (b : Board) (sysfsRoot : CStr) : Host Unit where
  readDir path _ :=
    (List.lookup path ((pciDir sysfsRoot, b.nodes.map PciNode.slot) ::
      (i2cDir sysfsRoot, b.adapters.map adapterEntry) ::
      b.nodes.map fun node => (node.dir sysfsRoot, node.adapters.map adapterEntry)), ())
  readFile path _ :=
    (List.lookup path (b.nodes.flatMap fun node =>
      (entryPath (node.dir sysfsRoot) "vendor".toList, attrHex node.pdev.vendor) ::
      (entryPath (node.dir sysfsRoot) "subsystem_vendor".toList,
        attrHex node.pdev.subsystemVendor) ::
      (entryPath (node.dir sysfsRoot) "subsystem_device".toList,
        attrHex node.pdev.subsystemDevice) ::
      node.adapters.map fun adap =>
        (entryPath (entryPath (node.dir sysfsRoot) (adapterEntry adap)) "name".toList,
          adap.name ++ ['\n'])), ())
  nanosleep _ _ := ()

/-- A card of the table with two adapters, beside the adapter of the mainboard. -/
def cardBoard : Board where
  nodes :=
    [⟨"0000:01:00.0".toList, ⟨0x10de, 0x1043, 0x89e3⟩,
      [⟨1, 3, "NVIDIA i2c adapter 0 at 1:00.0".toList, some (.pci ⟨0x10de, 0x1043, 0x89e3⟩)⟩,
        ⟨2, 4, "NVIDIA i2c adapter 1 at 1:00.0".toList,
          some (.pci ⟨0x10de, 0x1043, 0x89e3⟩)⟩], by decide⟩]
  others := [⟨0, 0, "SMBus PIIX4 adapter port 0 at 0b00".toList, some .other⟩]
  parent := by simp
  numbers := by decide
  nr_lt := by decide

theorem cardBoard_shown : cardBoard.ShownBy (cardBoard.host "/sys".toList) "/sys".toList where
  devices := fun () => ⟨cardBoard.nodes.map PciNode.slot, by decide +kernel, by decide +kernel⟩
  vendor := by decide +kernel
  subsystemVendor := by decide +kernel
  subsystemDevice := by decide +kernel
  entries := by
    intro node hnode _
    obtain rfl := List.mem_singleton.mp hnode
    exact ⟨_, rfl, by decide +kernel⟩
  name := by
    intro node hnode
    obtain rfl := List.mem_singleton.mp hnode
    decide +kernel
  all := fun () => ⟨cardBoard.adapters.map adapterEntry, by decide +kernel,
    fun _ hadap => List.mem_map_of_mem hadap,
    fun _ hent _ => Or.inl ((List.mem_map.mp hent).imp fun _ h => ⟨h.1, h.2.symm⟩)⟩

theorem cardBoard_regular : cardBoard.Regular := by
  rintro adap hadap ⟨pdev, hparent, -⟩
  have hadap : adap ∈ [_, _, _] := hadap
  rw [List.mem_cons, List.mem_cons, List.mem_singleton] at hadap
  rcases hadap with rfl | rfl | rfl
  · -- neither side takes the other adapter of the card
    have hloose : ¬ LooseName "NVIDIA i2c adapter 0 at 1:00.0".toList := fun h =>
      absurd ((astralIsSensorAdapter_iff ⟨1, 3, _, none⟩ (by decide)).mpr h) (by decide)
    exact ⟨by decide, fun h => absurd h hloose,
      fun h => absurd (adapterIndex_strip_iff.mpr (Or.inr h)) (by decide)⟩
  · have hstrict : StrictName "NVIDIA i2c adapter 1 at 1:00.0".toList :=
      strictName_iff.mpr (by decide)
    exact ⟨by decide, fun _ => hstrict, fun h => h.not_loose hstrict.loose⟩
  · exact absurd hparent (by simp)

/-- **The oracle's bus is one the driver selects.** On a regular board, the search finds the
same adapter on every machine that shows the board, in whatever order its directories are
listed and at any time; it is one that the driver selects on its default, and there is none
only if the driver selects none. -/
theorem findAstralAdapter_selects (b : Board) (sysfsRoot : CStr) (allowUnknown : Bool)
    (hnames : b.Regular) :
    ∃ found : Option I2cAdapter,
      (∀ {W : Type} (host : Host W) (w : W), b.ShownBy host sysfsRoot →
        (findAstralAdapter host sysfsRoot allowUnknown w).1
          = .ok (found.map fun adap => (adap.nr : ℤ))) ∧
      (∀ adap, found = some adap → adap ∈ b.adapters ∧ selects adap allowUnknown = true) ∧
      (found = none → ∀ adap ∈ b.adapters, selects adap allowUnknown = false) :=
  ⟨b.sensor sysfsRoot allowUnknown, fun _ w h => findAstralAdapter_eq h hnames.ascii allowUnknown w,
    fun _ hfound => Board.sensor_eq_some hnames hfound,
    fun hnone _ hadap => Board.sensor_eq_none hnames hnone hadap⟩

/-- The machine with one card: its second adapter is found. -/
theorem findAstralAdapter_selects_oneCard :
    (∃ found : Option I2cAdapter,
      (∀ {W : Type} (host : Host W) (w : W), cardBoard.ShownBy host "/sys".toList →
        (findAstralAdapter host "/sys".toList false w).1
          = .ok (found.map fun adap => (adap.nr : ℤ))) ∧
      (∀ adap, found = some adap → adap ∈ cardBoard.adapters ∧ selects adap false = true) ∧
      (found = none → ∀ adap ∈ cardBoard.adapters, selects adap false = false)) ∧
    cardBoard.ShownBy (cardBoard.host "/sys".toList) "/sys".toList ∧
    (findAstralAdapter (cardBoard.host "/sys".toList) "/sys".toList false ()).1 = .ok (some 4) :=
  ⟨findAstralAdapter_selects cardBoard "/sys".toList false cardBoard_regular, cardBoard_shown,
    by decide +kernel⟩

end Astral.Oracle
