import AstralHwmon.Driver.Detect
import AstralHwmon.Oracle.I2c
import Mathlib.Data.List.DropRight

/-!
# The oracle's search for the sensor's bus

`src/astral_oracle/discover.py`: the gate on a PCI device, with the subsystem as one
double word, and the index of an adapter, which a regular expression takes from its
name once `str.strip` has taken the white space off both ends.

The expression is a literal, a greedy group of digits and a word boundary. The
group gives digits back until a boundary follows, and within a run of digits there
is none, so that it matches the whole run or nothing (`adapterIndex_eq_some_iff`).
Digits and word characters are those of ASCII: what is proved of names is of ASCII names,
as the kernel's are.
-/

open CText

namespace Astral.Oracle

/-- `NVIDIA_VENDOR`. -/
def nvidiaVendor : ℕ := 0x10de

/-- `ADAPTER_INDEX`. -/
def adapterIndexWanted : ℕ := 1

/-- `ASTRAL_SUBSYSTEM_IDS`. -/
def astralSubsystemIds : List (ℕ × CStr) :=
  [(0x89ea1043, "ROG Astral RTX 5090D OC".toList),
    (0x8a611043, "ROG Astral RTX 5090 Matrix".toList),
    (0x89ec1043, "ROG Astral RTX 5090 LC".toList),
    (0x89e31043, "ROG Astral RTX 5090 OC".toList),
    (0x89de1043, "ROG Astral RTX 5080 OC".toList),
    (0x8a2e1043, "ROG Astral RTX 5090 OC White".toList),
    (0x8a2b1043, "ROG Astral RTX 5080 OC White".toList),
    (0x8a451043, "ROG Astral RTX 5080 OC Hatsune Miku".toList)]

/-- A double word as `:#010x` formats it. -/
def fmtDword (n : ℕ) : CStr :=
  "0x".toList ++ List.replicate (8 - (Nat.toDigits 16 n).length) '0' ++ Nat.toDigits 16 n

/-- The test of `_nvidia_devices` and `_matching_devices` on one device: the model
it is listed under, if it is. -/
def matchingDevice (pdev : PciDev) (allowUnknown : Bool) : Option CStr :=
  if pdev.vendor.toNat ≠ nvidiaVendor then none
  else
    let subsystem := (pdev.subsystemDevice.toNat <<< 16) ||| pdev.subsystemVendor.toNat
    match astralSubsystemIds.lookup subsystem with
    | some model => some model
    | none =>
      if !allowUnknown then none
      else some ("unknown (".toList ++ fmtDword subsystem ++ ")".toList)

/-- White space as `str.strip` has it: that of ASCII, and that of the rest of Unicode. -/
def pyIsspace (c : Char) : Bool :=
  (9 ≤ c.toNat && c.toNat ≤ 13) || (28 ≤ c.toNat && c.toNat ≤ 32) ||
    (0x2000 ≤ c.toNat && c.toNat ≤ 0x200a) ||
    [0x85, 0xa0, 0x1680, 0x2028, 0x2029, 0x202f, 0x205f, 0x3000].contains c.toNat

/-- `str.rstrip`. -/
def rstrip (s : CStr) : CStr := s.rdropWhile pyIsspace

/-- `str.strip`. -/
def strip (s : CStr) : CStr := rstrip (s.dropWhile pyIsspace)

/-- A word character of a regular expression, in ASCII. -/
def isWord (c : Char) : Bool := c.isAlphanum || c == '_'

/-- `\b`: a word character on one side only. -/
def wordBoundary (s : CStr) (k : ℕ) : Bool :=
  ((s.take k).getLast?.any isWord) != ((s.drop k).head?.any isWord)

/-- The literal of `_ADAPTER_RE`. -/
def adapterPrefix : CStr := "NVIDIA i2c adapter ".toList

/-- `adapter_index`, with the match of `_ADAPTER_RE` at the start of the name: the
group takes as many digits as it can and gives them back one by one. -/
def adapterIndex (name : CStr) : Option ℕ :=
  if adapterPrefix <+: name then
    let rest := name.drop adapterPrefix.length
    let lengths := (List.range (rest.takeWhile Char.isDigit).length).reverse.map (· + 1)
    (lengths.find? (wordBoundary rest)).map fun k => Nat.ofDigitChars 10 (rest.take k) 0
  else none

/-- The oracle's search accepts a device and the name of an adapter under it. -/
def accepts (pdev : PciDev) (allowUnknown : Bool) (name : CStr) : Bool :=
  (matchingDevice pdev allowUnknown).isSome && adapterIndex (strip name) == some adapterIndexWanted

/-! ### What the expression matches -/

theorem isWord_of_isDigit {c : Char} (h : c.isDigit = true) : isWord c = true := by
  simp [isWord, Char.isAlphanum, h]

/-- A part of a run of digits ends in a word character. -/
theorem getLast?_digits {digits : CStr} (hdigits : ∀ c ∈ digits, c.isDigit = true) {k : ℕ}
    (hpos : 0 < k) (hle : k ≤ digits.length) : (digits.take k).getLast?.any isWord = true := by
  have hne : digits.take k ≠ [] := by
    rw [Ne, List.take_eq_nil_iff, not_or]
    exact ⟨by omega, List.ne_nil_of_length_pos (by omega)⟩
  rw [List.getLast?_eq_some_getLast hne, Option.any_some]
  exact isWord_of_isDigit (hdigits _ (List.mem_of_mem_take (List.getLast_mem hne)))

theorem wordBoundary_inside {digits tail : CStr} (hdigits : ∀ c ∈ digits, c.isDigit = true) {k : ℕ}
    (hpos : 0 < k) (hlt : k < digits.length) : wordBoundary (digits ++ tail) k = false := by
  have hnext : (digits.drop k).head?.any isWord = true := by
    rw [List.head?_drop, List.getElem?_eq_getElem hlt, Option.any_some]
    exact isWord_of_isDigit (hdigits _ (List.getElem_mem hlt))
  have hne : digits.drop k ≠ [] := by rw [Ne, List.drop_eq_nil_iff]; omega
  rw [wordBoundary, List.take_append_of_le_length hlt.le, List.drop_append_of_le_length hlt.le,
    getLast?_digits hdigits hpos hlt.le, List.head?_append_of_ne_nil _ hne, hnext]
  rfl

theorem wordBoundary_end {digits tail : CStr} (hne : digits ≠ [])
    (hdigits : ∀ c ∈ digits, c.isDigit = true) :
    wordBoundary (digits ++ tail) digits.length = !tail.head?.any isWord := by
  have hlast := getLast?_digits hdigits (List.length_pos_iff.mpr hne) le_rfl
  rw [List.take_length] at hlast
  rw [wordBoundary, List.take_left, List.drop_left, hlast]
  cases tail.head?.any isWord <;> rfl

/-- Of a run of digits and what follows it, only the whole run ends at a boundary,
and only if no word character follows. -/
theorem find_wordBoundary {digits tail : CStr} (hne : digits ≠ [])
    (hdigits : ∀ c ∈ digits, c.isDigit = true) :
    ((List.range digits.length).reverse.map (· + 1)).find? (wordBoundary (digits ++ tail))
      = if tail.head?.any isWord then none else some digits.length := by
  obtain ⟨m, hm⟩ := Nat.exists_eq_succ_of_ne_zero (List.length_pos_iff.mpr hne).ne'
  have hend : wordBoundary (digits ++ tail) (m + 1) = !tail.head?.any isWord := by
    rw [← wordBoundary_end hne hdigits, hm]
  rw [hm, List.range_succ, List.reverse_append, List.reverse_singleton, List.singleton_append,
    List.map_cons, List.find?_cons, hend]
  cases htail : tail.head?.any isWord with
  | false => rfl
  | true =>
    -- the group gives back digits to no avail
    refine List.find?_eq_none.mpr fun k hk => ?_
    obtain ⟨j, hj, rfl⟩ := List.mem_map.mp hk
    rw [List.mem_reverse, List.mem_range] at hj
    rw [wordBoundary_inside hdigits (Nat.succ_pos j) (by omega)]
    decide

/-- **What the index is taken from.** A name has an index exactly when it is the
literal, digits, and no word character after them. -/
theorem adapterIndex_eq_some_iff {name : CStr} {n : ℕ} : adapterIndex name = some n ↔
    ∃ digits tail, name = adapterPrefix ++ (digits ++ tail) ∧ digits ≠ [] ∧
      (∀ c ∈ digits, c.isDigit = true) ∧ tail.head?.any isWord = false ∧
      Nat.ofDigitChars 10 digits 0 = n := by
  -- the match on the literal, with digits and tail told apart
  have hmatch : ∀ {digits tail : CStr}, digits ≠ [] → (∀ c ∈ digits, c.isDigit = true) →
      tail.head?.any Char.isDigit = false → adapterIndex (adapterPrefix ++ (digits ++ tail))
        = if tail.head?.any isWord then none else some (Nat.ofDigitChars 10 digits 0) := by
    intro digits tail hne hdigits htail
    rw [adapterIndex, if_pos (List.prefix_append _ _), List.drop_left]
    dsimp only
    rw [takeWhile_append_of_head hdigits htail, find_wordBoundary hne hdigits]
    split
    · rfl
    · rw [Option.map_some, List.take_left]
  constructor
  · intro h
    have hpre : adapterPrefix <+: name := by
      by_contra hno
      rw [adapterIndex, if_neg hno] at h
      exact absurd h (by simp)
    obtain ⟨rest, rfl⟩ := hpre
    have hsplit : rest.takeWhile Char.isDigit ++ rest.dropWhile Char.isDigit = rest :=
      List.takeWhile_append_dropWhile
    have hdigits : ∀ c ∈ rest.takeWhile Char.isDigit, c.isDigit = true :=
      fun c hc => List.mem_takeWhile_imp hc
    have htail := head?_dropWhile_any Char.isDigit rest
    by_cases hne : rest.takeWhile Char.isDigit = []
    · -- without digits there is no length to try
      rw [adapterIndex, if_pos (List.prefix_append _ _), List.drop_left] at h
      simp [hne] at h
    · rw [← hsplit, hmatch hne hdigits htail] at h
      split at h
      next => exact absurd h (by simp)
      next hword =>
        exact ⟨_, _, by rw [hsplit], hne, hdigits, Bool.eq_false_of_not_eq_true hword,
          Option.some.inj h⟩
  · rintro ⟨digits, tail, rfl, hne, hdigits, htail, rfl⟩
    have hnodigit : tail.head?.any Char.isDigit = false := by
      cases tail with
      | nil => rfl
      | cons c cs =>
        rw [List.head?_cons, Option.any_some] at htail ⊢
        by_contra hd
        rw [isWord_of_isDigit (Bool.eq_true_of_not_eq_false hd)] at htail
        exact absurd htail (by decide)
    rw [hmatch hne hdigits hnodigit, htail]
    rfl

end Astral.Oracle
