import AstralHwmon.Oracle.Discover

/-!
# Which buses the two sides accept

The driver's default selection and the oracle's search, compared on every PCI
device and every name of an adapter under it.

The gates agree: a pair of words is in the driver's table exactly when its double
word is in the oracle's (`matchingDevice_admitted`). The names do not. The driver's
format takes any white space where it has a blank, a minus sign before the number,
a number that wraps around to 1, and anything after it (`LooseName`); the oracle
takes the name as it is spelled, the number 1 up to a word boundary (`StrictName`),
but takes white space off its ends first (`PaddedName`). `buses_agree` says that this
is all they disagree about.
-/

open CText

namespace Astral.Oracle

/-! ### The gates -/

/-- A subsystem as one double word. -/
def subsystemDword (vendor device : UInt16) : ℕ := (device.toNat <<< 16) ||| vendor.toNat

theorem subsystemDword_injective {v d v' d' : UInt16}
    (h : subsystemDword v d = subsystemDword v' d') : v = v' ∧ d = d' := by
  have hpack : ∀ v d : UInt16, subsystemDword v d = d.toNat * 65536 + v.toNat := by
    intro v d
    rw [subsystemDword, ← Nat.shiftLeft_add_eq_or_of_lt v.toNat_lt, Nat.shiftLeft_eq]
  have hv := v.toNat_lt
  have hv' := v'.toNat_lt
  rw [hpack, hpack] at h
  exact ⟨UInt16.toNat_inj.mp (by omega), UInt16.toNat_inj.mp (by omega)⟩

/-- The oracle's double words are the driver's pairs. -/
theorem astralSubsystemIds_eq : astralSubsystemIds.map Prod.fst
    = astralModels.map fun model => subsystemDword model.subsystemVendor model.subsystemDevice := by
  decide

/-- The two tables list the same cards. -/
theorem lookup_isSome_iff (vendor device : UInt16) :
    (astralSubsystemIds.lookup (subsystemDword vendor device)).isSome = true ↔
      ∃ model ∈ astralModels, model.subsystemVendor = vendor ∧ model.subsystemDevice = device := by
  have hlookup : (astralSubsystemIds.lookup (subsystemDword vendor device)).isSome = true ↔
      subsystemDword vendor device ∈ astralSubsystemIds.map Prod.fst := by
    rw [List.lookup_isSome_iff, List.mem_map]
    exact exists_congr fun p => and_congr_right fun _ => by rw [beq_iff_eq, eq_comm]
  rw [hlookup, astralSubsystemIds_eq, List.mem_map]
  refine exists_congr fun model => and_congr_right fun _ => ⟨subsystemDword_injective, ?_⟩
  rintro ⟨rfl, rfl⟩
  rfl

/-- A device that both sides are to talk to. -/
def Admitted (pdev : PciDev) (allowUnknown : Bool) : Prop :=
  pdev.vendor = 0x10de ∧ ((∃ model ∈ astralModels, model.subsystemVendor = pdev.subsystemVendor ∧
    model.subsystemDevice = pdev.subsystemDevice) ∨ allowUnknown = true)

theorem astralCardMatches_admitted {pdev : PciDev} {allowUnknown : Bool} {adap : I2cAdapter}
    (hparent : adap.parent = some (.pci pdev)) :
    (astralCardMatches adap allowUnknown).isSome = true ↔ Admitted pdev allowUnknown := by
  rw [astralCardMatches_isSome_iff]
  refine ⟨fun ⟨pdev', hpdev, hadmitted⟩ => ?_, fun h => ⟨pdev, hparent, h⟩⟩
  rw [hparent, Option.some.injEq, ParentDevice.pci.injEq] at hpdev
  exact hpdev ▸ hadmitted

/-- The gates of the two sides let the same devices through. -/
theorem matchingDevice_admitted (pdev : PciDev) (allowUnknown : Bool) :
    (matchingDevice pdev allowUnknown).isSome = true ↔ Admitted pdev allowUnknown := by
  unfold matchingDevice Admitted
  rw [← lookup_isSome_iff, subsystemDword]
  have hvendor : pdev.vendor.toNat = nvidiaVendor ↔ pdev.vendor = 0x10de :=
    (UInt16.toNat_inj (b := 0x10de))
  by_cases hnvidia : pdev.vendor = 0x10de
  · rw [if_neg (not_not.mpr (hvendor.mpr hnvidia))]
    dsimp only
    -- in the table, or left to `allow_unknown`
    cases astralSubsystemIds.lookup
        (pdev.subsystemDevice.toNat <<< 16 ||| pdev.subsystemVendor.toNat) with
    | some model => simp [hnvidia]
    | none => cases allowUnknown <;> simp [hnvidia]
  · rw [if_pos (fun h => hnvidia (hvendor.mp h))]
    simp [hnvidia]

/-! ### The names -/

/-- A name as it is spelled, with the number 1 and no word character after it. -/
def StrictName (name : CStr) : Prop :=
  ∃ digits tail, name = adapterPrefix ++ (digits ++ tail) ∧ digits ≠ [] ∧
    (∀ c ∈ digits, c.isDigit = true) ∧ tail.head?.any isWord = false ∧
    Nat.ofDigitChars 10 digits 0 = 1

/-- A name with white space in front. -/
def PaddedName (name : CStr) : Prop :=
  ∃ ws s, name = ws ++ s ∧ ws ≠ [] ∧ (∀ c ∈ ws, pyIsspace c = true) ∧ StrictName s

/-- A name as the driver's format takes it: any white space at the blanks, a minus
sign or none, a number that is 1 in 32 bits, and anything after it. -/
def LooseName (name : CStr) : Prop :=
  ∃ w₁ w₂ w₃ sign digits tail : CStr,
    name = "NVIDIA".toList ++ (w₁ ++ ("i2c".toList ++ (w₂ ++ ("adapter".toList ++
      (w₃ ++ (sign ++ (digits ++ tail))))))) ∧
    (∀ c ∈ w₁ ++ w₂ ++ w₃, isspace c = true) ∧ (sign = [] ∨ sign = ['-']) ∧ digits ≠ [] ∧
    (∀ c ∈ digits, c.isDigit = true) ∧ tail.head?.any Char.isDigit = false ∧
    signedValue (sign = ['-']) digits % 4294967296 = 1

theorem strictName_iff {name : CStr} :
    StrictName name ↔ adapterIndex name = some adapterIndexWanted :=
  adapterIndex_eq_some_iff.symm

/-- A strict name begins with a letter. -/
theorem StrictName.head? {name : CStr} (h : StrictName name) : name.head? = some 'N' := by
  obtain ⟨digits, tail, rfl, -⟩ := h
  rfl

theorem LooseName.head? {name : CStr} (h : LooseName name) : name.head? = some 'N' := by
  obtain ⟨w₁, w₂, w₃, sign, digits, tail, rfl, -⟩ := h
  rfl

/-- White space lies below every word character, or above. -/
theorem toNat_of_pyIsspace {c : Char} (h : pyIsspace c = true) :
    c.toNat ≤ 32 ∨ 0x85 ≤ c.toNat := by
  simp only [pyIsspace, Bool.or_eq_true, Bool.and_eq_true, decide_eq_true_eq,
    List.contains_eq_mem, List.mem_cons, List.not_mem_nil, or_false] at h
  omega

theorem toNat_of_isWord {c : Char} (h : isWord c = true) : 48 ≤ c.toNat ∧ c.toNat ≤ 122 := by
  have hval : c.toNat = c.val.toNat := rfl
  delta isWord Char.isAlphanum Char.isAlpha Char.isUpper Char.isLower Char.isDigit at h
  simp only [Bool.or_eq_true, Bool.and_eq_true, decide_eq_true_eq, beq_iff_eq,
    UInt32.le_iff_toNat_le, ge_iff_le] at h
  rcases h with ((⟨hlo, hhi⟩ | ⟨hlo, hhi⟩) | ⟨hlo, hhi⟩) | rfl
  · exact ⟨le_trans (by decide) hlo, le_trans hhi (by decide)⟩
  · exact ⟨le_trans (by decide) hlo, hhi⟩
  · exact ⟨hlo, le_trans hhi (by decide)⟩
  · decide

theorem isWord_of_pyIsspace {c : Char} (h : pyIsspace c = true) : isWord c = false := by
  by_contra hword
  have hbounds := toNat_of_isWord (Bool.eq_true_of_not_eq_false hword)
  have hspace := toNat_of_pyIsspace h
  omega

/-- White space after a text whose last character is none comes off alone. -/
theorem rstrip_append {s : CStr} (hne : s ≠ []) (hlast : pyIsspace (s.getLast hne) = false)
    (t : CStr) : rstrip (s ++ t) = s ++ rstrip t := by
  have hself : s.reverse.dropWhile pyIsspace = s.reverse := by
    have hkeep := List.rdropWhile_eq_self_iff.mpr fun _ => Bool.eq_false_iff.mp hlast
    rw [List.rdropWhile, List.reverse_eq_iff] at hkeep
    exact hkeep
  unfold rstrip List.rdropWhile
  rw [List.reverse_append, List.dropWhile_append, hself]
  by_cases hnil : t.reverse.dropWhile pyIsspace = []
  · simp [hnil]
  · rw [if_neg (by simpa [List.isEmpty_iff] using hnil), List.reverse_append, List.reverse_reverse]

/-- White space at the end of a name is neither here nor there. -/
theorem strictName_rstrip (s : CStr) : StrictName (rstrip s) ↔ StrictName s := by
  constructor
  · rintro ⟨digits, tail, hname, hne, hdigits, htail, hone⟩
    -- what came off goes to the tail
    refine ⟨digits, tail ++ s.rtakeWhile pyIsspace, ?_, hne, hdigits, ?_, hone⟩
    · rw [← List.append_assoc digits, ← List.append_assoc, ← hname]
      exact List.rdropWhile_append_rtakeWhile.symm
    · cases tail with
      | cons c cs => exact htail
      | nil =>
        rw [List.nil_append]
        cases hws : s.rtakeWhile pyIsspace with
        | nil => rfl
        | cons c cs =>
          exact isWord_of_pyIsspace (List.mem_rtakeWhile_imp (hws ▸ List.mem_cons_self))
  · rintro ⟨digits, tail, rfl, hne, hdigits, htail, hone⟩
    have hpre : adapterPrefix ++ digits ≠ [] := List.append_ne_nil_of_right_ne_nil _ hne
    have hlast : pyIsspace ((adapterPrefix ++ digits).getLast hpre) = false := by
      rw [List.getLast_append_of_right_ne_nil _ _ hne]
      by_contra hspace
      have hword := isWord_of_isDigit (hdigits _ (List.getLast_mem hne))
      rw [isWord_of_pyIsspace (Bool.eq_true_of_not_eq_false hspace)] at hword
      exact absurd hword (by decide)
    refine ⟨digits, rstrip tail, ?_, hne, hdigits, ?_, hone⟩
    · rw [← List.append_assoc, rstrip_append hpre hlast, List.append_assoc]
    · obtain ⟨ws, hws⟩ := List.rdropWhile_prefix pyIsspace tail
      cases hstrip : rstrip tail with
      | nil => rfl
      | cons c cs =>
        rw [← hws, show tail.rdropWhile pyIsspace = c :: cs from hstrip] at htail
        exact htail

/-- The oracle takes a strict name, and white space before it. -/
theorem adapterIndex_strip_iff {name : CStr} :
    adapterIndex (strip name) = some adapterIndexWanted ↔ StrictName name ∨ PaddedName name := by
  rw [← strictName_iff, strip, strictName_rstrip]
  -- a strict name starts with a letter, so what is stripped is all there is before it
  have hletter : ∀ {s : CStr}, StrictName s → s.head?.any pyIsspace = false := by
    intro s hs
    rw [hs.head?]
    rfl
  constructor
  · intro h
    by_cases hws : name.takeWhile pyIsspace = []
    · have hsplit : name.takeWhile pyIsspace ++ name.dropWhile pyIsspace = name :=
        List.takeWhile_append_dropWhile
      rw [hws, List.nil_append] at hsplit
      exact Or.inl (hsplit ▸ h)
    · exact Or.inr ⟨_, _, List.takeWhile_append_dropWhile.symm, hws,
        fun c hc => List.mem_takeWhile_imp hc, h⟩
  · rintro (h | ⟨ws, s, rfl, -, hws, hs⟩)
    · have hkeep : name.dropWhile pyIsspace = name :=
        dropWhile_eq_iff.mpr ⟨[], rfl, by simp, hletter h⟩
      rwa [hkeep]
    · rwa [dropWhile_append_of_head hws (hletter hs)]

/-- White space to the kernel, in ASCII. -/
theorem kernelIsspace_of_ascii {c : Char} (h : c.toNat < 128) : kernelIsspace c = isspace c := by
  have hne : c.toNat ≠ 0xa0 := by omega
  simp [kernelIsspace, hne]

/-- A number wraps to 1 when it is 1 up to a multiple of the range. -/
theorem toInt_ofInt_eq_one_iff (n : ℤ) :
    (BitVec.ofInt 32 n).toInt = 1 ↔ n % 4294967296 = 1 := by
  have hrange : ((2 ^ 32 : ℕ) : ℤ) = 4294967296 := by decide
  rw [BitVec.toInt_ofInt, Int.bmod_def, hrange]
  omega

/-- The driver takes a loose name. -/
theorem astralIsSensorAdapter_iff (adap : I2cAdapter) (hascii : ∀ c ∈ adap.name, c.toNat < 128) :
    astralIsSensorAdapter adap = true ↔ LooseName adap.name := by
  have hindex : astralIsSensorAdapter adap = true ↔
      sscanfInt astralAdapterFmt adap.name = some 1 := by
    unfold astralIsSensorAdapter
    cases sscanfInt astralAdapterFmt adap.name with
    | none => simp
    | some index => simp
  have hfmt : astralAdapterFmt = "NVIDIA".toList ++ (' ' :: ("i2c".toList ++ (' ' ::
      ("adapter".toList ++ (' ' :: "%d".toList))))) := by decide
  rw [hindex, hfmt]
  constructor
  · intro h
    -- literal by literal, with white space or nothing where the format has a blank
    obtain ⟨r₁, hname, h⟩ := (sscanfInt_literal (by decide)).mp h
    rw [sscanfInt_blank] at h
    obtain ⟨r₂, hr₁, h₂⟩ := (sscanfInt_literal (by decide)).mp h
    obtain ⟨w₁, rfl, hw₁, -⟩ := dropWhile_eq_iff.mp hr₁
    rw [sscanfInt_blank] at h₂
    obtain ⟨r₃, hr₂, h₃⟩ := (sscanfInt_literal (by decide)).mp h₂
    obtain ⟨w₂, rfl, hw₂, -⟩ := dropWhile_eq_iff.mp hr₂
    rw [sscanfInt_number] at h₃
    obtain ⟨w₃, sign, digits, tail, rfl, hw₃, hsign, hne, hdigits, htail, hone⟩ :=
      kernelInt_eq_some_iff.mp h₃
    refine ⟨w₁, w₂, w₃, sign, digits, tail, hname, ?_, hsign, hne, hdigits, htail,
      (toInt_ofInt_eq_one_iff _).mp hone⟩
    intro c hc
    -- the kernel's white space beyond ASCII is not in the name
    have hmem : c ∈ adap.name := by
      rw [hname]
      simp only [List.mem_append] at hc ⊢
      rcases hc with (hc | hc) | hc
      · exact Or.inr (Or.inl hc)
      · exact Or.inr (Or.inr (Or.inr (Or.inl hc)))
      · exact Or.inr (Or.inr (Or.inr (Or.inr (Or.inr (Or.inl hc)))))
    rw [← kernelIsspace_of_ascii (hascii c hmem)]
    simp only [List.mem_append] at hc
    rcases hc with (hc | hc) | hc
    exacts [hw₁ c hc, hw₂ c hc, hw₃ c hc]
  · rintro ⟨w₁, w₂, w₃, sign, digits, tail, hname, hws, hsign, hne, hdigits, htail, hone⟩
    have hkernel : ∀ c ∈ w₁ ++ w₂ ++ w₃, kernelIsspace c = true := fun c hc => by
      rw [kernelIsspace, hws c hc, Bool.true_or]
    simp only [List.mem_append] at hkernel
    -- and the format matches such a name in the same order
    refine (sscanfInt_literal (by decide)).mpr ⟨_, hname, ?_⟩
    rw [sscanfInt_blank,
      dropWhile_append_of_head (fun c hc => hkernel c (Or.inl (Or.inl hc))) (by rfl)]
    refine (sscanfInt_literal (by decide)).mpr ⟨_, rfl, ?_⟩
    rw [sscanfInt_blank,
      dropWhile_append_of_head (fun c hc => hkernel c (Or.inl (Or.inr hc))) (by rfl)]
    refine (sscanfInt_literal (by decide)).mpr ⟨_, rfl, ?_⟩
    rw [sscanfInt_number]
    exact kernelInt_eq_some_iff.mpr ⟨w₃, sign, digits, tail, rfl, fun c hc => hkernel c (Or.inr hc),
      hsign, hne, hdigits, htail, (toInt_ofInt_eq_one_iff _).mpr hone⟩

theorem StrictName.loose {name : CStr} (h : StrictName name) : LooseName name := by
  obtain ⟨digits, tail, rfl, hne, hdigits, htail, hone⟩ := h
  have hnodigit : tail.head?.any Char.isDigit = false := by
    cases tail with
    | nil => rfl
    | cons c cs =>
      by_contra hd
      have hword : isWord c = true := isWord_of_isDigit (Bool.eq_true_of_not_eq_false hd)
      exact absurd (htail.symm.trans hword) (by decide)
  refine ⟨[' '], [' '], [' '], [], digits, tail, rfl, by decide, Or.inl rfl, hne, hdigits,
    hnodigit, ?_⟩
  simp [signedValue, hone]

theorem PaddedName.not_loose {name : CStr} (h : PaddedName name) : ¬ LooseName name := by
  rintro hloose
  obtain ⟨ws, s, rfl, hne, hws, -⟩ := h
  obtain ⟨c, cs, rfl⟩ := List.exists_cons_of_ne_nil hne
  have hletter : c = 'N' := by simpa using hloose.head?
  exact absurd (hws c List.mem_cons_self) (by rw [hletter]; decide)

/-- The driver's default selection of a bus. -/
def selects (adap : I2cAdapter) (allowUnknown : Bool) : Bool :=
  (astralCardMatches adap allowUnknown).isSome && astralIsSensorAdapter adap

/-- **Which buses both sides accept.** They agree on a bus, and take it only for the
number 1 as it is spelled, exactly when the device is refused or the name is none
that the two formats tell apart. -/
theorem buses_agree (pdev : PciDev) (allowUnknown : Bool) (obj nr : ℕ) {name : CStr}
    (hascii : ∀ c ∈ name, c.toNat < 128) :
    ((selects ⟨obj, nr, name, some (.pci pdev)⟩ allowUnknown = true ↔
        accepts pdev allowUnknown name = true) ∧
      ((selects ⟨obj, nr, name, some (.pci pdev)⟩ allowUnknown = true ∨
        accepts pdev allowUnknown name = true) → StrictName (strip name))) ↔
    (¬ Admitted pdev allowUnknown ∨ ((LooseName name → StrictName name) ∧ ¬ PaddedName name)) := by
  have hselects : selects ⟨obj, nr, name, some (.pci pdev)⟩ allowUnknown = true ↔
      Admitted pdev allowUnknown ∧ LooseName name := by
    rw [selects, Bool.and_eq_true, astralCardMatches_admitted rfl,
      astralIsSensorAdapter_iff ⟨obj, nr, name, some (.pci pdev)⟩ hascii]
  have haccepts : accepts pdev allowUnknown name = true ↔
      Admitted pdev allowUnknown ∧ (StrictName name ∨ PaddedName name) := by
    rw [accepts, Bool.and_eq_true, matchingDevice_admitted, beq_iff_eq, adapterIndex_strip_iff]
  have hstrip : StrictName (strip name) ↔ StrictName name ∨ PaddedName name := by
    rw [strictName_iff, adapterIndex_strip_iff]
  have hloose : StrictName name → LooseName name := StrictName.loose
  have hpadded : PaddedName name → ¬ LooseName name := PaddedName.not_loose
  rw [hselects, haccepts, hstrip]
  constructor
  · rintro ⟨hsame, -⟩
    by_cases hadmitted : Admitted pdev allowUnknown
    · -- on an admitted device the names alone decide
      have hnames : LooseName name ↔ StrictName name ∨ PaddedName name :=
        and_congr_right_iff.mp hsame hadmitted
      refine Or.inr
        ⟨fun h => (hnames.mp h).resolve_right fun hpad => hpadded hpad h, fun hpad => ?_⟩
      exact hpadded hpad (hnames.mpr (Or.inr hpad))
    · exact Or.inl hadmitted
  · rintro (hrefused | ⟨hstrict, hnotPadded⟩)
    · exact ⟨⟨fun h => absurd h.1 hrefused, fun h => absurd h.1 hrefused⟩,
        fun h => h.elim (fun h => absurd h.1 hrefused) (fun h => absurd h.1 hrefused)⟩
    · refine ⟨and_congr_right fun _ => ⟨fun h => Or.inl (hstrict h), ?_⟩, ?_⟩
      · rintro (h | h)
        exacts [hloose h, absurd h hnotPadded]
      · rintro (⟨-, h⟩ | ⟨-, h⟩)
        exacts [Or.inl (hstrict h), h]

/-- The name the sensor's bus has on a card of the table: the two sides agree on it,
and take it. -/
theorem buses_agree_realName :
    (selects ⟨0, 4, "NVIDIA i2c adapter 1 at 1:00.0".toList, some (.pci ⟨0x10de, 0x1043, 0x89e3⟩)⟩
        false = true ↔
      accepts ⟨0x10de, 0x1043, 0x89e3⟩ false "NVIDIA i2c adapter 1 at 1:00.0".toList = true) ∧
    accepts ⟨0x10de, 0x1043, 0x89e3⟩ false "NVIDIA i2c adapter 1 at 1:00.0".toList = true := by
  have hstrict : StrictName "NVIDIA i2c adapter 1 at 1:00.0".toList :=
    strictName_iff.mpr (by decide)
  exact ⟨((buses_agree ⟨0x10de, 0x1043, 0x89e3⟩ false 0 4 (by decide)).mpr
    (Or.inr ⟨fun _ => hstrict, fun hpadded => hpadded.not_loose hstrict.loose⟩)).1, by decide⟩

/-- A letter right after the number: the driver takes the bus, the oracle does not. -/
theorem buses_wordTail :
    ¬ ∀ (pdev : PciDev) (allowUnknown : Bool) (obj nr : ℕ) (name : CStr), name.length ≤ 47 →
      (∀ c ∈ name, c.toNat < 128) →
      (selects ⟨obj, nr, name, some (.pci pdev)⟩ allowUnknown = true ↔
        accepts pdev allowUnknown name = true) := by
  intro h
  have hwrong := (h ⟨0x10de, 0x1043, 0x89e3⟩ false 0 4 "NVIDIA i2c adapter 1abc".toList
    (by decide) (by decide)).mp (by decide)
  exact absurd hwrong (by decide)

end Astral.Oracle
