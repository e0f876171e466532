import AstralHwmon.Oracle.Discover

/-!
# Integers as Python reads them

`int` of a text, in base 10 and in base 16, as the oracle uses it on attributes: white space
on both ends, one sign, digits with single underscores between them, and in base 16 the
prefix `0x` or none. Everything else is a `ValueError`, and so is a numeral of more digits
than `sys.get_int_max_str_digits()` allows. The digits are those of ASCII: the kernel prints
no others.

The kernel prints numbers as `%d` and as `0x%04x`. `pyInt_fmtInt` and `pyHex_attrHex` are
the two round trips.
-/

open CText

namespace Astral.Oracle

/-- What reading an attribute raises. A `UnicodeDecodeError` is a `ValueError`. -/
inductive SysfsError
  | osError
  | valueError
  deriving DecidableEq

/-- The digits of a literal, without the underscores, of which one may stand between two
digits. -/
def literalDigits (isDigit : Char → Bool) : CStr → Option CStr
  | [] => none
  | [c] => if isDigit c then some [c] else none
  | c :: d :: cs =>
    if isDigit c then
      if d = '_' then (literalDigits isDigit cs).map (c :: ·)
      else (literalDigits isDigit (d :: cs)).map (c :: ·)
    else none

/-- `sys.get_int_max_str_digits()`, at its default. -/
def maxStrDigits : ℕ := 4300

/-- `int` of a text, whose digits are those of ASCII. -/
def pyInt (s : CStr) : Except SysfsError ℤ :=
  let signed := splitSign (strip s)
  match literalDigits Char.isDigit signed.2 with
  | none => .error .valueError
  | some digits =>
    if maxStrDigits < digits.length then .error .valueError
    else .ok (signedValue signed.1 digits)

/-- The value of a digit in base 16, if it is one. -/
def hexValue (c : Char) : Option ℕ :=
  if c.isDigit then some (c.toNat - 48)
  else if 'a' ≤ c ∧ c ≤ 'f' then some (c.toNat - 87)
  else if 'A' ≤ c ∧ c ≤ 'F' then some (c.toNat - 55)
  else none

/-- A literal in base 16 behind its prefix, if it has one; an underscore may follow the
prefix. -/
def dropHexPrefix : CStr → CStr
  | '0' :: x :: rest =>
    if x = 'x' ∨ x = 'X' then
      match rest with
      | '_' :: rest => rest
      | rest => rest
    else '0' :: x :: rest
  | s => s

/-- The value of digits in base 16. -/
def ofHexDigits (digits : CStr) : ℕ :=
  digits.foldl (fun n c => 16 * n + (hexValue c).getD 0) 0

/-- `int` of a text, in base 16. -/
def pyHex (s : CStr) : Except SysfsError ℤ :=
  let signed := splitSign (strip s)
  match literalDigits (fun c => (hexValue c).isSome) (dropHexPrefix signed.2) with
  | none => .error .valueError
  | some digits => .ok (if signed.1 then -(ofHexDigits digits : ℤ) else ofHexDigits digits)

/-- A 16-bit attribute as the kernel prints it: `0x%04x`, and a newline. -/
def attrHex (n : UInt16) : CStr :=
  "0x".toList ++ List.replicate (4 - (Nat.toDigits 16 n.toNat).length) '0' ++
    Nat.toDigits 16 n.toNat ++ ['\n']

/-! ### White space -/

/-- White space behind a text without any goes. -/
theorem strip_append {s ws : CStr} (hs : ∀ c ∈ s, pyIsspace c = false)
    (hws : ∀ c ∈ ws, pyIsspace c = true) : strip (s ++ ws) = s := by
  -- nothing goes at the front, and at the back what was put there
  have hfront : (s ++ ws).dropWhile pyIsspace = s ++ ws ∨ s = [] := by
    cases s with
    | nil => exact Or.inr rfl
    | cons c cs =>
      rw [List.cons_append, List.dropWhile_cons_of_neg (by simp [hs c List.mem_cons_self])]
      exact Or.inl rfl
  have hback : s.reverse.dropWhile pyIsspace = s.reverse := by
    cases hrev : s.reverse with
    | nil => rfl
    | cons c cs =>
      have hc : c ∈ s := List.mem_reverse.mp (hrev ▸ List.mem_cons_self)
      exact List.dropWhile_cons_of_neg (by simp [hs c hc])
  rcases hfront with hfront | rfl
  · rw [strip, hfront, rstrip, List.rdropWhile, List.reverse_append,
      List.dropWhile_append_of_pos fun c hc => hws c (List.mem_reverse.mp hc), hback,
      List.reverse_reverse]
  · rw [strip, List.nil_append, List.dropWhile_eq_nil_iff.mpr hws]
    rfl

/-- A text without white space is its own line. -/
theorem strip_line {s : CStr} (hs : ∀ c ∈ s, pyIsspace c = false) :
    strip (s ++ ['\n']) = s ∧ strip s = s := by
  have hself := strip_append hs (show ∀ c ∈ ([] : CStr), pyIsspace c = true by decide)
  rw [List.append_nil] at hself
  exact ⟨strip_append hs (by decide), hself⟩

/-! ### Round trips -/

theorem literalDigits_of_digits {isDigit : Char → Bool} (hunderscore : isDigit '_' = false)
    {digits : CStr} (hne : digits ≠ []) (h : ∀ c ∈ digits, isDigit c = true) :
    literalDigits isDigit digits = some digits := by
  induction digits with
  | nil => exact absurd rfl hne
  | cons c cs ih =>
    obtain ⟨hc, hcs⟩ := List.forall_mem_cons.mp h
    cases cs with
    | nil => rw [literalDigits, if_pos hc]
    | cons d ds =>
      -- a digit is no underscore
      have hd : d ≠ '_' := by
        rintro rfl
        exact absurd (hunderscore.symm.trans (hcs _ List.mem_cons_self)) (by decide)
      rw [literalDigits, if_pos hc, if_neg hd, ih (List.cons_ne_nil _ _) hcs, Option.map_some]

/-- A visible character of ASCII is no white space of Python's. -/
theorem not_pyIsspace_of_visible {c : Char} (h : 33 ≤ c.toNat ∧ c.toNat < 128) :
    pyIsspace c = false := by
  rw [pyIsspace]
  simp only [Bool.or_eq_false_iff, Bool.and_eq_false_iff, decide_eq_false_iff_not,
    List.contains_eq_mem, List.mem_cons, List.not_mem_nil, or_false]
  omega

/-- Digits and signs are visible. -/
theorem visible_of_mem_fmtInt {n : ℤ} {c : Char} (h : c ∈ fmtInt n) :
    33 ≤ c.toNat ∧ c.toNat < 128 := by
  have hdigit : c ∈ Nat.toDigits 10 n.natAbs → 33 ≤ c.toNat ∧ c.toNat < 128 := by
    intro hm
    have hc := isDigit_of_mem_toDigits hm
    simp only [Char.isDigit, Bool.and_eq_true, decide_eq_true_eq] at hc
    have hlo : 48 ≤ c.toNat := UInt32.le_iff_toNat_le.mp hc.1
    have hhi : c.toNat ≤ 57 := UInt32.le_iff_toNat_le.mp hc.2
    omega
  unfold fmtInt at h
  split at h
  · rcases List.mem_cons.mp h with rfl | hm
    · decide
    · exact hdigit hm
  · exact hdigit h

theorem not_pyIsspace_of_mem_fmtInt {n : ℤ} {c : Char} (h : c ∈ fmtInt n) :
    pyIsspace c = false :=
  not_pyIsspace_of_visible (visible_of_mem_fmtInt h)

/-- **Round trip in base 10.** A printed number of no more digits than allowed is read
back. -/
theorem pyInt_fmtInt {n : ℤ} (hlen : (Nat.toDigits 10 n.natAbs).length ≤ maxStrDigits) :
    pyInt (fmtInt n) = .ok n := by
  have hstrip : strip (fmtInt n) = fmtInt n :=
    (strip_line fun c hc => not_pyIsspace_of_mem_fmtInt hc).2
  have hsign : splitSign (fmtInt n) = (decide (n < 0), Nat.toDigits 10 n.natAbs) := by
    rw [fmtInt]
    split
    next hneg => simp [splitSign, hneg]
    next hpos =>
      -- the first digit is no sign
      cases hd : Nat.toDigits 10 n.natAbs with
      | nil => exact absurd hd Nat.toDigits_ne_nil
      | cons c cs =>
        have hc := not_special_of_isDigit
          (isDigit_of_mem_toDigits (hd ▸ List.mem_cons_self : c ∈ _))
        simp [splitSign, hc.2.1, hc.2.2.1, hpos]
  have hliteral : literalDigits Char.isDigit (Nat.toDigits 10 n.natAbs)
      = some (Nat.toDigits 10 n.natAbs) :=
    literalDigits_of_digits (by decide) Nat.toDigits_ne_nil fun c hc => isDigit_of_mem_toDigits hc
  have hvalue : signedValue (decide (n < 0)) (Nat.toDigits 10 n.natAbs) = n := by
    rw [signedValue, Nat.ofDigitChars_ten_toDigits]
    split
    next h => have := of_decide_eq_true h; omega
    next h => have : ¬ n < 0 := fun hn => h (decide_eq_true hn); omega
  simp only [pyInt, hstrip, hsign, hliteral, if_neg (not_lt.mpr hlen), hvalue]

/-- A digit of the kernel's, in base 16. -/
theorem hexValue_digitChar {d : ℕ} (h : d < 16) :
    hexValue (Nat.digitChar d) = some d ∧ pyIsspace (Nat.digitChar d) = false := by
  have hall : ∀ d : Fin 16, hexValue (Nat.digitChar d) = some d.val ∧
      pyIsspace (Nat.digitChar d) = false := by decide
  exact hall ⟨d, h⟩

theorem ofHexDigits_append (a : CStr) (c : Char) :
    ofHexDigits (a ++ [c]) = 16 * ofHexDigits a + (hexValue c).getD 0 := by
  rw [ofHexDigits, List.foldl_append]
  rfl

/-- The digits of a number in base 16: digits they are, and they make up the number. -/
theorem toDigits_hex (n : ℕ) : ofHexDigits (Nat.toDigits 16 n) = n ∧
    ∀ c ∈ Nat.toDigits 16 n, (hexValue c).isSome = true ∧ pyIsspace c = false := by
  induction n using Nat.strong_induction_on with
  | _ n ih =>
    rw [Nat.toDigits_eq_if (by decide)]
    split
    next hlt =>
      obtain ⟨hvalue, hspace⟩ := hexValue_digitChar hlt
      refine ⟨?_, fun c hc => ?_⟩
      · simp [ofHexDigits, hvalue]
      · obtain rfl := List.mem_singleton.mp hc
        rw [hvalue]
        exact ⟨rfl, hspace⟩
    next hge =>
      -- the digits of the quotient, and one more
      obtain ⟨hquot, hdigits⟩ := ih (n / 16) (by omega)
      obtain ⟨hvalue, hspace⟩ := hexValue_digitChar (Nat.mod_lt n (by decide : 0 < 16))
      refine ⟨?_, fun c hc => ?_⟩
      · rw [ofHexDigits_append, hquot, hvalue, Option.getD_some]
        omega
      · rcases List.mem_append.mp hc with hc | hc
        · exact hdigits c hc
        · obtain rfl := List.mem_singleton.mp hc
          rw [hvalue]
          exact ⟨rfl, hspace⟩

/-- Zeros in front of digits in base 16 are worth nothing. -/
theorem ofHexDigits_zeros (k : ℕ) (digits : CStr) :
    ofHexDigits (List.replicate k '0' ++ digits) = ofHexDigits digits := by
  have hzeros : ofHexDigits (List.replicate k '0') = 0 := by
    induction k with
    | zero => rfl
    | succ k ih => rw [List.replicate_succ', ofHexDigits_append, ih]; rfl
  unfold ofHexDigits at hzeros ⊢
  rw [List.foldl_append, hzeros]

theorem toNat_of_hexValue {c : Char} (h : (hexValue c).isSome = true) : c.toNat < 128 := by
  unfold hexValue at h
  split_ifs at h with hdigit hlower hupper
  · simp only [Char.isDigit, Bool.and_eq_true, decide_eq_true_eq] at hdigit
    exact (UInt32.le_iff_toNat_le.mp hdigit.2).trans_lt (by decide)
  · exact (UInt32.le_iff_toNat_le.mp hlower.2).trans_lt (by decide)
  · exact (UInt32.le_iff_toNat_le.mp hupper.2).trans_lt (by decide)
  · exact absurd h Bool.false_ne_true

theorem attrHex_ascii (n : UInt16) : ∀ c ∈ attrHex n, c.toNat < 128 := by
  have hzeros : ∀ {k : ℕ}, ∀ c ∈ List.replicate k '0', c.toNat < 128 := fun c hc =>
    List.eq_of_mem_replicate hc ▸ by decide
  have hdigits : ∀ c ∈ Nat.toDigits 16 n.toNat, c.toNat < 128 := fun c hc =>
    toNat_of_hexValue ((toDigits_hex n.toNat).2 c hc).1
  simp only [attrHex, List.forall_mem_append, List.forall_mem_singleton]
  exact ⟨⟨⟨by decide, hzeros⟩, hdigits⟩, by decide⟩

/-- **Round trip in base 16.** An attribute that the kernel prints is read back. -/
theorem pyHex_attrHex (n : UInt16) : pyHex (strip (attrHex n)) = .ok n.toNat := by
  obtain ⟨hvalue, hdigits⟩ := toDigits_hex n.toNat
  let zeros := List.replicate (4 - (Nat.toDigits 16 n.toNat).length) '0'
  let body := zeros ++ Nat.toDigits 16 n.toNat
  have hbody : ∀ c ∈ body, (hexValue c).isSome = true ∧ pyIsspace c = false := by
    intro c hc
    rcases List.mem_append.mp hc with hc | hc
    · rw [List.eq_of_mem_replicate hc]
      decide
    · exact hdigits c hc
  have hne : body ≠ [] := List.append_ne_nil_of_right_ne_nil _ Nat.toDigits_ne_nil
  have hattr : attrHex n = ('0' :: 'x' :: body) ++ ['\n'] := by
    rw [attrHex, List.append_assoc "0x".toList]
    rfl
  have hclean : ∀ c ∈ '0' :: 'x' :: body, pyIsspace c = false := by
    simp only [List.forall_mem_cons]
    exact ⟨by decide, by decide, fun c hc => (hbody c hc).2⟩
  have hdropped : dropHexPrefix ('0' :: 'x' :: body) = body := by
    obtain ⟨c, cs, hcons⟩ := List.exists_cons_of_ne_nil hne
    -- the first digit is no underscore
    have hc : c ≠ '_' := by
      rintro rfl
      have := (hbody '_' (hcons ▸ List.mem_cons_self)).1
      exact absurd this (by decide)
    rw [hcons, dropHexPrefix, if_pos (Or.inl rfl)]
    exact fun rest heq => hc (List.cons.inj heq).1
  have hliteral : literalDigits (fun c => (hexValue c).isSome) body = some body :=
    literalDigits_of_digits (by decide) hne fun c hc => (hbody c hc).1
  have hsign : splitSign ('0' :: 'x' :: body) = (false, '0' :: 'x' :: body) := rfl
  have hnumber : ofHexDigits body = n.toNat := (ofHexDigits_zeros _ _).trans hvalue
  rw [hattr, (strip_line hclean).1, pyHex, (strip_line hclean).2, hsign]
  simp only [hdropped, hliteral, hnumber, Bool.false_eq_true, if_false]

end Astral.Oracle
