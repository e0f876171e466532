import AstralHwmon.Lib.JsonString

/-!
# JSON texts

A parser of JSON over the bytes of a text, and what it takes a laid out text for.

`value`, `elements` and `members` read a value, the values of an array and the members
of an object from the front of a text, with a bound on their nesting, and give back what
follows; `parse` reads a text that is one value, between white space. The members of an
object are kept in the order of the text, with their repetitions.

`Reads t v` says that the text `t`, wherever it stands, is read as `v` if a comma, a
bracket or white space follows. The rules that prove it are those of the grammar:
`Reads.blank`, `Reads.str`, `Reads.int`, `Reads.arr` and `Reads.obj`.
-/

open CText

namespace Json

/-- A JSON value. A number is its decimal digits as an integer, and a power of ten. -/
inductive Value
  | null
  | bool (b : Bool)
  | num (mantissa exponent : ℤ)
  | str (s : CStr)
  | arr (items : List Value)
  | obj (members : List (CStr × Value))

/-! ### The parser -/

/-- White space between the tokens. -/
def isBlank (c : Char) : Bool := c == ' ' || c == '\n' || c == '\x0d' || c == '\t'

/-- The text from its next token on. -/
def skip (s : CStr) : CStr := s.dropWhile isBlank

/-- The digits behind a decimal point, if there is one. -/
def fraction : CStr → Option (CStr × CStr)
  | [] => some ([], [])
  | c :: s =>
    if c = '.' then
      if s.takeWhile Char.isDigit = [] then none
      else some (s.takeWhile Char.isDigit, s.dropWhile Char.isDigit)
    else some ([], c :: s)

/-- The exponent, if there is one. -/
def exponent : CStr → Option (ℤ × CStr)
  | [] => some (0, [])
  | c :: s =>
    if c = 'e' ∨ c = 'E' then
      let signed := splitSign s
      let digits := signed.2.takeWhile Char.isDigit
      if digits = [] then none
      else some (signedValue signed.1 digits, signed.2.dropWhile Char.isDigit)
    else some (0, c :: s)

/-- A minus sign and what follows it. -/
def splitMinus : CStr → Bool × CStr
  | [] => (false, [])
  | c :: s => if c = '-' then (true, s) else (false, c :: s)

/-- A number. -/
def number (s : CStr) : Option (Value × CStr) :=
  let signed := splitMinus s
  let digits := signed.2.takeWhile Char.isDigit
  -- no zeros in front
  if digits = [] ∨ (digits.head? = some '0' ∧ digits ≠ ['0']) then none
  else
    match fraction (signed.2.dropWhile Char.isDigit) with
    | none => none
    | some (frac, s) =>
      match exponent s with
      | none => none
      | some (e, s) => some (.num (signedValue signed.1 (digits ++ frac)) (e - frac.length), s)

/-- The words of the grammar. -/
def words : List (CStr × Value) :=
  [("true".toList, .bool true), ("false".toList, .bool false), ("null".toList, .null)]

/-- A name and the colon after it. -/
def name (s : CStr) : Option (CStr × CStr) :=
  match skip s with
  | [] => none
  | c :: s =>
    if c = '"' then
      match scan (.char []) s with
      | none => none
      | some (k, s) =>
        match skip s with
        | [] => none
        | c :: s => if c = ':' then some (k, s) else none
    else none

/-- A value that is no array and no object. -/
def scalar (c : Char) (s : CStr) : Option (Value × CStr) :=
  if c = '"' then (scan (.char []) s).map fun (v, s) => (.str v, s)
  else
    match words.find? fun w => w.1.isPrefixOf (c :: s) with
    | some w => some (w.2, (c :: s).drop w.1.length)
    | none => number (c :: s)

mutual

/-- A value, and what follows it. -/
def value : ℕ → CStr → Option (Value × CStr)
  | 0, _ => none
  | n + 1, s =>
    match skip s with
    | [] => none
    | c :: s =>
      if c = '[' then
        if (skip s).head? = some ']' then some (.arr [], (skip s).tail)
        else (elements n s).map fun (vs, s) => (.arr vs, s)
      else if c = '\x7b' then
        if (skip s).head? = some '\x7d' then some (.obj [], (skip s).tail)
        else (members n s).map fun (ms, s) => (.obj ms, s)
      else scalar c s

/-- The values of an array, and what follows its bracket. -/
def elements : ℕ → CStr → Option (List Value × CStr)
  | 0, _ => none
  | n + 1, s =>
    match value n s with
    | none => none
    | some (v, s) =>
      match skip s with
      | [] => none
      | c :: s =>
        if c = ',' then (elements n s).map fun (vs, s) => (v :: vs, s)
        else if c = ']' then some ([v], s)
        else none

/-- The members of an object, and what follows its bracket. -/
def members : ℕ → CStr → Option (List (CStr × Value) × CStr)
  | 0, _ => none
  | n + 1, s =>
    match name s with
    | none => none
    | some (k, s) =>
      match value n s with
      | none => none
      | some (v, s) =>
        match skip s with
        | [] => none
        | c :: s =>
          if c = ',' then (members n s).map fun (ms, s) => ((k, v) :: ms, s)
          else if c = '\x7d' then some ([(k, v)], s)
          else none

end

/-- A text that is one value. -/
def parse (s : CStr) : Option Value :=
  match value s.length s with
  | some (v, rest) => if skip rest = [] then some v else none
  | none => none

/-! ### Reading back -/

/-- The value of a name, the first if there are several. -/
def Value.get (key : CStr) : Value → Option Value
  | .obj ms => ms.lookup key
  | _ => none

/-- The integer a value is: a number without a fraction. -/
def Value.int? : Value → Option ℤ
  | .num n e => if e = 0 then some n else none
  | _ => none

/-- The text a value is. -/
def Value.text? : Value → Option CStr
  | .str s => some s
  | _ => none

/-- The items of a value that is an array. -/
def Value.items? : Value → Option (List Value)
  | .arr vs => some vs
  | _ => none

/-! ### Laid out texts -/

/-- A text of white space. -/
def Blank (ws : CStr) : Prop := ∀ c ∈ ws, isBlank c = true

instance (ws : CStr) : Decidable (Blank ws) :=
  inferInstanceAs (Decidable (∀ c ∈ ws, isBlank c = true))

/-- What may follow a value: nothing that could go on a number. -/
def Ends (rest : CStr) : Prop :=
  rest.head?.all (fun c => isBlank c || c == ',' || c == ']' || c == '}') = true

/-- The text, wherever it stands, is read as the value. -/
def Reads (t : CStr) (v : Value) : Prop :=
  ∀ n rest, t.length ≤ n → Ends rest → value n (t ++ rest) = some (v, rest)

/-- A string, written as it stands. -/
def quoted (s : CStr) : CStr := '"' :: (s ++ ['"'])

/-- A member: white space, its name, a colon, and its value. -/
def member (ws key t : CStr) : CStr := ws ++ (quoted key ++ (':' :: t))

/-- An array, with what stands before its bracket. -/
def array (ts : List CStr) (ws : CStr) : CStr :=
  '[' :: (List.intercalate [','] ts ++ (ws ++ [']']))

/-- An object, with what stands before its bracket. -/
def object (ts : List CStr) (ws : CStr) : CStr :=
  '\x7b' :: (List.intercalate [','] ts ++ (ws ++ ['\x7d']))

/-- The text is read as a member of an object. -/
def ReadsMember (t : CStr) (m : CStr × Value) : Prop :=
  ∃ ws t', t = member ws m.1 t' ∧ Blank ws ∧ Verbatim m.1 ∧ Reads t' m.2

theorem skip_blank {ws : CStr} (h : Blank ws) (s : CStr) : skip (ws ++ s) = skip s := by
  rw [skip, List.dropWhile_append_of_pos h, skip]

theorem skip_cons {c : Char} (h : isBlank c = false) (s : CStr) : skip (c :: s) = c :: s :=
  List.dropWhile_cons_of_neg (by simp [h])

/-- White space in front of a value is skipped. -/
theorem value_blank {ws : CStr} (h : Blank ws) (n : ℕ) (s : CStr) :
    value n (ws ++ s) = value n s := by
  cases n with
  | zero => rfl
  | succ n => rw [value, value, skip_blank h]

theorem value_space (n : ℕ) (s : CStr) : value n (' ' :: s) = value n s :=
  value_blank (show Blank [' '] by decide) n s

theorem Reads.blank {ws t : CStr} {v : Value} (hws : Blank ws) (h : Reads t v) :
    Reads (ws ++ t) v := by
  intro n rest hn hrest
  rw [List.append_assoc, value_blank hws]
  exact h n rest (by rw [List.length_append] at hn; omega) hrest

theorem Ends.blank {ws rest : CStr} (hws : Blank ws) (h : Ends rest) : Ends (ws ++ rest) := by
  cases ws with
  | nil => exact h
  | cons c ws =>
    have hc := hws c List.mem_cons_self
    simp [Ends, hc]

/-- A member, its value after a space. -/
theorem ReadsMember.of_reads {ws key t : CStr} {v : Value} (hws : Blank ws) (hkey : Verbatim key)
    (h : Reads t v) : ReadsMember (member ws key (' ' :: t)) (key, v) :=
  ⟨ws, ' ' :: t, rfl, hws, hkey, Reads.blank (show Blank [' '] by decide) h⟩

/-- A string is read by the scanner. -/
theorem value_string (n : ℕ) (s : CStr) :
    value (n + 1) ('"' :: s) = (scan (.char []) s).map fun (v, s) => (.str v, s) := by
  rw [value, skip_cons (by decide)]
  rfl

theorem Reads.str {s : CStr} (h : Verbatim s) : Reads (quoted s) (.str s) := by
  intro n rest hn _
  obtain ⟨n, rfl⟩ := Nat.exists_eq_succ_of_ne_zero (n := n) (by rintro rfl; simp [quoted] at hn)
  rw [quoted, List.cons_append, List.append_assoc, List.singleton_append, value_string, h.scan]
  rfl

/-! ### Numbers -/

/-- A printed number has no zeros in front. -/
theorem toDigits_head? (n : ℕ) (h : (Nat.toDigits 10 n).head? = some '0') :
    Nat.toDigits 10 n = ['0'] := by
  induction n using Nat.strongRecOn with
  | ind n ih =>
    by_cases hn : n < 10
    · rw [Nat.toDigits_of_lt_base hn] at h ⊢
      rw [Option.some.inj h]
    · rw [Nat.toDigits_of_base_le (by decide) (by omega), List.head?_append_of_ne_nil _
        Nat.toDigits_ne_nil] at h
      -- the digits in front are those of a number that is not zero
      have hfront := ih (n / 10) (by omega) h
      have hval := congrArg (fun ds => Nat.ofDigitChars 10 ds 0) hfront
      simp only [Nat.ofDigitChars_ten_toDigits] at hval
      have hzero : Nat.ofDigitChars 10 ['0'] 0 = 0 := by decide
      omega

theorem Ends.not_digit {rest : CStr} (h : Ends rest) : rest.head?.any Char.isDigit = false := by
  cases rest with
  | nil => rfl
  | cons c rest =>
    by_contra hdigit
    have hdigit : c.isDigit = true := by simpa using hdigit
    simp only [Ends, List.head?_cons, Option.all_some, isBlank, Bool.or_eq_true, beq_iff_eq] at h
    rcases h with ((((((rfl | rfl) | rfl) | rfl) | rfl) | rfl) | rfl) <;>
      exact absurd hdigit (by decide)

theorem Ends.no_fraction {rest : CStr} (h : Ends rest) : fraction rest = some ([], rest) := by
  cases rest with
  | nil => rfl
  | cons c rest =>
    rw [fraction, if_neg]
    rintro rfl
    exact absurd h (by simp [Ends]; decide)

theorem Ends.no_exponent {rest : CStr} (h : Ends rest) : exponent rest = some (0, rest) := by
  cases rest with
  | nil => rfl
  | cons c rest =>
    rw [exponent, if_neg]
    rintro (rfl | rfl) <;> exact absurd h (by simp [Ends]; decide)

theorem number_fmtInt (n : ℤ) {rest : CStr} (h : Ends rest) :
    number (fmtInt n ++ rest) = some (.num n 0, rest) := by
  have hdigits : ∀ c ∈ Nat.toDigits 10 n.natAbs, c.isDigit = true :=
    fun c hc => isDigit_of_mem_toDigits hc
  have hsplit : splitMinus (fmtInt n ++ rest)
      = (decide (n < 0), Nat.toDigits 10 n.natAbs ++ rest) := by
    unfold fmtInt
    split
    next hneg => simp [splitMinus, hneg]
    next hneg =>
      cases hd : Nat.toDigits 10 n.natAbs with
      | nil => exact absurd hd Nat.toDigits_ne_nil
      | cons c cs =>
        -- a digit is no sign
        have hc := (not_special_of_isDigit (hdigits c (hd ▸ List.mem_cons_self))).2.1
        simp [splitMinus, hc, hneg]
  have hlead : ¬ (Nat.toDigits 10 n.natAbs = [] ∨
      ((Nat.toDigits 10 n.natAbs).head? = some '0' ∧ Nat.toDigits 10 n.natAbs ≠ ['0'])) := by
    rintro (hnil | ⟨hhead, hne⟩)
    exacts [Nat.toDigits_ne_nil hnil, hne (toDigits_head? _ hhead)]
  have hval : signedValue (decide (n < 0)) (Nat.toDigits 10 n.natAbs) = n := by
    rw [signedValue, Nat.ofDigitChars_ten_toDigits]
    split
    next hneg => have := of_decide_eq_true hneg; omega
    next hneg => have : ¬ n < 0 := fun h => hneg (decide_eq_true h); omega
  unfold number
  simp only [hsplit, takeWhile_append_of_head hdigits h.not_digit,
    dropWhile_append_of_head hdigits h.not_digit, if_neg hlead, h.no_fraction, h.no_exponent,
    List.append_nil, hval, List.length_nil]
  rfl

/-! ### One token on -/

/-- A word of the grammar starts with a letter. -/
theorem words_find?_of_not_letter {c : Char} (ht : c ≠ 't') (hf : c ≠ 'f') (hn : c ≠ 'n')
    (s : CStr) : (words.find? fun w => w.1.isPrefixOf (c :: s)) = none := by
  simp [words, List.isPrefixOf, ht.symm, hf.symm, hn.symm]

/-- What starts with neither bracket is no array and no object. -/
theorem value_scalar {c : Char} (hblank : isBlank c = false) (harr : c ≠ '[') (hobj : c ≠ '\x7b')
    (n : ℕ) (s : CStr) : value (n + 1) (c :: s) = scalar c s := by
  rw [value, skip_cons hblank]
  dsimp only
  rw [if_neg harr, if_neg hobj]

theorem value_arr {s : CStr} (h : (skip s).head? ≠ some ']') (n : ℕ) :
    value (n + 1) ('[' :: s) = (elements n s).map fun (vs, s) => (.arr vs, s) := by
  rw [value, skip_cons (by decide)]
  dsimp only
  rw [if_pos rfl, if_neg h]

theorem value_obj {s : CStr} (h : (skip s).head? ≠ some '\x7d') (n : ℕ) :
    value (n + 1) ('\x7b' :: s) = (members n s).map fun (ms, s) => (.obj ms, s) := by
  rw [value, skip_cons (by decide)]
  dsimp only
  rw [if_neg (by decide), if_pos rfl, if_neg h]

theorem fmtInt_eq_cons (n : ℤ) : ∃ c s, fmtInt n = c :: s ∧ (c = '-' ∨ c.isDigit = true) := by
  cases hn : fmtInt n with
  | nil => exact absurd hn (fmtInt_ne_nil n)
  | cons c s =>
    refine ⟨c, s, rfl, ?_⟩
    have hc : c ∈ fmtInt n := hn ▸ List.mem_cons_self
    unfold fmtInt at hn
    split at hn
    next => exact Or.inl (List.cons.inj hn).1.symm
    next => exact Or.inr (isDigit_of_mem_toDigits (hn ▸ List.mem_cons_self))

/-- A printed integer is read as a number. -/
theorem Reads.int (n : ℤ) : Reads (fmtInt n) (.num n 0) := by
  intro fuel rest hfuel hrest
  obtain ⟨c, s, hn, hc⟩ := fmtInt_eq_cons n
  obtain ⟨fuel, rfl⟩ := Nat.exists_eq_succ_of_ne_zero (n := fuel)
    (by rintro rfl; simp [hn] at hfuel)
  -- the first character is a sign or a digit, so no other kind of value begins here
  have hother : ∀ d : Char, d ≠ '-' → d.isDigit = false → c ≠ d := by
    rintro d hminus hdigit rfl
    rcases hc with rfl | hc
    exacts [hminus rfl, absurd hc (by simp [hdigit])]
  have hblank : isBlank c = false := by
    simp [isBlank, hother ' ' (by decide) (by decide), hother '\n' (by decide) (by decide),
      hother '\x0d' (by decide) (by decide), hother '\t' (by decide) (by decide)]
  have hnumber := number_fmtInt n hrest
  rw [hn, List.cons_append] at hnumber ⊢
  rw [value_scalar hblank (hother _ (by decide) (by decide)) (hother _ (by decide) (by decide)),
    scalar, if_neg (hother _ (by decide) (by decide)),
    words_find?_of_not_letter (hother _ (by decide) (by decide)) (hother _ (by decide) (by decide))
      (hother _ (by decide) (by decide))]
  exact hnumber

/-! ### Arrays -/

/-- No value starts with a closing bracket. -/
theorem head?_skip_of_value {n : ℕ} {s : CStr} {r : Value × CStr} (h : value n s = some r) :
    (skip s).head? ≠ some ']' := by
  intro hhead
  cases n with
  | zero => rw [value] at h; exact absurd h (by simp)
  | succ n =>
    rw [value] at h
    cases hskip : skip s with
    | nil => rw [hskip] at hhead; exact absurd hhead (by simp)
    | cons c t =>
      rw [hskip] at h hhead
      obtain rfl : c = ']' := by simpa using hhead
      dsimp only at h
      rw [if_neg (by decide), if_neg (by decide), scalar, if_neg (by decide),
        words_find?_of_not_letter (by decide) (by decide) (by decide)] at h
      simp [number, splitMinus] at h

theorem value_of_elements {n : ℕ} {s rest : CStr} {vs : List Value}
    (h : elements n s = some (vs, rest)) : value (n + 1) ('[' :: s) = some (.arr vs, rest) := by
  have hhead : (skip s).head? ≠ some ']' := by
    cases n with
    | zero => rw [elements] at h; exact absurd h (by simp)
    | succ n =>
      rw [elements] at h
      cases hv : value n s with
      | none => rw [hv] at h; exact absurd h (by simp)
      | some r => exact head?_skip_of_value hv
  rw [value_arr hhead, h]
  rfl

/-- A value of an array is read, and then those after the comma. -/
theorem elements_comma {t : CStr} {v : Value} (h : Reads t v) {n : ℕ} (hn : t.length ≤ n)
    (s : CStr) : elements (n + 1) (t ++ ',' :: s)
      = (elements n s).map fun (vs, s) => (v :: vs, s) := by
  rw [elements, h n _ hn (by simp [Ends])]
  dsimp only
  rw [skip_cons (by decide)]
  rfl

/-- The last value of an array is read, and the bracket. -/
theorem elements_close {t ws : CStr} {v : Value} (h : Reads t v) (hws : Blank ws) {n : ℕ}
    (hn : t.length ≤ n) (s : CStr) :
    elements (n + 1) (t ++ (ws ++ ']' :: s)) = some ([v], s) := by
  rw [elements, h n _ hn (Ends.blank hws (by simp [Ends]))]
  dsimp only
  rw [skip_blank hws, skip_cons (by decide)]
  rfl

theorem exists_intercalate_cons (sep t : CStr) (ts : List CStr) :
    ∃ s, List.intercalate sep (t :: ts) = t ++ s := by
  cases ts with
  | nil => exact ⟨[], by rw [List.intercalate_singleton, List.append_nil]⟩
  | cons t' ts => exact ⟨_, by rw [List.intercalate_cons_cons, List.append_assoc]⟩

theorem elements_intercalate {ts : List CStr} {vs : List Value} (h : List.Forall₂ Reads ts vs)
    (hne : ts ≠ []) {ws : CStr} (hws : Blank ws) {n : ℕ}
    (hn : (List.intercalate [','] ts).length < n) (s : CStr) :
    elements n (List.intercalate [','] ts ++ (ws ++ ']' :: s)) = some (vs, s) := by
  -- on the texts; the last is closed by the bracket and the others by a comma
  induction h generalizing n with
  | nil => exact absurd rfl hne
  | @cons t v ts vs ht hts ih =>
    obtain ⟨n, rfl⟩ := Nat.exists_eq_succ_of_ne_zero (n := n) (by rintro rfl; simp at hn)
    cases hts with
    | nil =>
      rw [List.intercalate_singleton] at hn ⊢
      exact elements_close ht hws (Nat.lt_succ_iff.mp hn) s
    | @cons t' v' ts vs ht' hts =>
      rw [List.intercalate_cons_cons] at hn ⊢
      simp only [List.length_append, List.length_singleton] at hn
      rw [List.append_assoc, List.append_assoc, List.singleton_append,
        elements_comma ht (by omega), ih (List.cons_ne_nil _ _) (by omega)]
      rfl

theorem Reads.arr {ts : List CStr} {vs : List Value} (h : List.Forall₂ Reads ts vs)
    (hne : ts ≠ []) {ws : CStr} (hws : Blank ws) :
    Reads (array ts ws) (.arr vs) := by
  intro n rest hn _
  simp only [array, List.length_cons, List.length_append, List.length_nil] at hn
  obtain ⟨n, rfl⟩ := Nat.exists_eq_succ_of_ne_zero (n := n) (by omega)
  rw [array, List.cons_append, List.append_assoc, List.append_assoc, List.singleton_append,
    value_of_elements (elements_intercalate h hne hws (by omega) rest)]

theorem Reads.arr_nil : Reads (array [] []) (.arr []) := by
  intro n rest hn _
  obtain ⟨n, rfl⟩ := Nat.exists_eq_succ_of_ne_zero (n := n) (by rintro rfl; simp [array] at hn)
  change value (n + 1) ('[' :: ']' :: rest) = _
  rw [value, skip_cons (by decide)]
  dsimp only
  rw [if_pos rfl, skip_cons (by decide)]
  rfl

/-! ### Objects -/

theorem name_quoted {ws key : CStr} (hws : Blank ws) (hkey : Verbatim key) (s : CStr) :
    name (ws ++ (quoted key ++ ':' :: s)) = some (key, s) := by
  rw [name, skip_blank hws, quoted, List.cons_append, skip_cons (by decide)]
  dsimp only
  rw [if_pos rfl, List.append_assoc, List.singleton_append, hkey.scan]
  dsimp only
  rw [skip_cons (by decide)]
  rfl

/-- Every name starts with a quote. -/
theorem head?_skip_of_name {s : CStr} {r : CStr × CStr} (h : name s = some r) :
    (skip s).head? = some '"' := by
  rw [name] at h
  cases hskip : skip s with
  | nil => rw [hskip] at h; exact absurd h (by simp)
  | cons c t =>
    rw [hskip] at h
    dsimp only at h
    split at h
    next hc => rw [hc]; rfl
    next => exact absurd h (by simp)

theorem value_of_members {n : ℕ} {s rest : CStr} {ms : List (CStr × Value)}
    (h : members n s = some (ms, rest)) :
    value (n + 1) ('\x7b' :: s) = some (.obj ms, rest) := by
  have hhead : (skip s).head? ≠ some '\x7d' := by
    cases n with
    | zero => rw [members] at h; exact absurd h (by simp)
    | succ n =>
      rw [members] at h
      cases hk : name s with
      | none => rw [hk] at h; exact absurd h (by simp)
      | some r => rw [head?_skip_of_name hk]; decide
  rw [value_obj hhead, h]
  rfl

/-- A member of an object is read, and then those after the comma. -/
theorem members_comma {t : CStr} {m : CStr × Value} (h : ReadsMember t m) {n : ℕ}
    (hn : t.length ≤ n) (s : CStr) : members (n + 1) (t ++ ',' :: s)
      = (members n s).map fun (ms, s) => (m :: ms, s) := by
  obtain ⟨ws, t', rfl, hws, hkey, ht'⟩ := h
  have hlen : t'.length ≤ n := by simp [member, quoted] at hn; omega
  rw [members, member, List.append_assoc, List.append_assoc, List.cons_append,
    name_quoted hws hkey]
  dsimp only
  rw [ht' n _ hlen (by simp [Ends])]
  dsimp only
  rw [skip_cons (by decide)]
  rfl

/-- The last member of an object is read, and the bracket. -/
theorem members_close {t ws : CStr} {m : CStr × Value} (h : ReadsMember t m) (hws : Blank ws)
    {n : ℕ} (hn : t.length ≤ n) (s : CStr) :
    members (n + 1) (t ++ (ws ++ '\x7d' :: s)) = some ([m], s) := by
  obtain ⟨ws', t', rfl, hws', hkey, ht'⟩ := h
  have hlen : t'.length ≤ n := by simp [member, quoted] at hn; omega
  rw [members, member, List.append_assoc, List.append_assoc, List.cons_append,
    name_quoted hws' hkey]
  dsimp only
  rw [ht' n _ hlen (Ends.blank hws (by simp [Ends]))]
  dsimp only
  rw [skip_blank hws, skip_cons (by decide)]
  rfl

theorem members_intercalate {ts : List CStr} {ms : List (CStr × Value)}
    (h : List.Forall₂ ReadsMember ts ms) (hne : ts ≠ []) {ws : CStr} (hws : Blank ws) {n : ℕ}
    (hn : (List.intercalate [','] ts).length < n) (s : CStr) :
    members n (List.intercalate [','] ts ++ (ws ++ '\x7d' :: s)) = some (ms, s) := by
  -- as for the elements
  induction h generalizing n with
  | nil => exact absurd rfl hne
  | @cons t m ts ms ht hts ih =>
    obtain ⟨n, rfl⟩ := Nat.exists_eq_succ_of_ne_zero (n := n) (by rintro rfl; simp at hn)
    cases hts with
    | nil =>
      rw [List.intercalate_singleton] at hn ⊢
      exact members_close ht hws (Nat.lt_succ_iff.mp hn) s
    | @cons t' m' ts ms ht' hts =>
      rw [List.intercalate_cons_cons] at hn ⊢
      simp only [List.length_append, List.length_singleton] at hn
      rw [List.append_assoc, List.append_assoc, List.singleton_append,
        members_comma ht (by omega), ih (List.cons_ne_nil _ _) (by omega)]
      rfl

theorem Reads.obj {ts : List CStr} {ms : List (CStr × Value)}
    (h : List.Forall₂ ReadsMember ts ms) (hne : ts ≠ []) {ws : CStr} (hws : Blank ws) :
    Reads (object ts ws) (.obj ms) := by
  intro n rest hn _
  simp only [object, List.length_cons, List.length_append, List.length_nil] at hn
  obtain ⟨n, rfl⟩ := Nat.exists_eq_succ_of_ne_zero (n := n) (by omega)
  rw [object, List.cons_append, List.append_assoc, List.append_assoc, List.singleton_append,
    value_of_members (members_intercalate h hne hws (by omega) rest)]

/-! ### Whole texts, and what they were read from -/

theorem parse_of_reads {t ws : CStr} {v : Value} (h : Reads t v) (hws : Blank ws) :
    parse (t ++ ws) = some v := by
  have hends : Ends ws := by
    have := Ends.blank hws (show Ends [] from rfl)
    rwa [List.append_nil] at this
  have hrest : skip ws = [] := by
    have := skip_blank hws []
    rwa [List.append_nil] at this
  rw [parse, h _ ws (by simp) hends]
  dsimp only
  rw [if_pos hrest]

theorem value_of_parse {s : CStr} {v : Value} (h : parse s = some v) :
    ∃ rest, value s.length s = some (v, rest) := by
  rw [parse] at h
  cases hv : value s.length s with
  | none => rw [hv] at h; exact absurd h (by simp)
  | some r =>
    obtain ⟨v', rest⟩ := r
    rw [hv] at h
    dsimp only at h
    split at h
    · exact ⟨rest, by rw [Option.some.inj h]⟩
    · exact absurd h (by simp)

theorem string_of_value {n : ℕ} {s rest : CStr} {v : Value}
    (h : value n ('"' :: s) = some (v, rest)) :
    ∃ p, v = .str p ∧ scan (.char []) s = some (p, rest) := by
  cases n with
  | zero => rw [value] at h; exact absurd h (by simp)
  | succ n =>
    rw [value_string] at h
    obtain ⟨p, hscan, rfl⟩ := read_of_map_eq_some h
    exact ⟨p, rfl, hscan⟩

/-- The first value of an array. -/
theorem elements_head {n : ℕ} {s rest : CStr} {vs : List Value}
    (h : elements n s = some (vs, rest)) :
    ∃ m v s' vs', n = m + 1 ∧ value m s = some (v, s') ∧ vs = v :: vs' := by
  cases n with
  | zero => rw [elements] at h; exact absurd h (by simp)
  | succ m =>
    rw [elements] at h
    cases hv : value m s with
    | none => rw [hv] at h; exact absurd h (by simp)
    | some r =>
      obtain ⟨v, s'⟩ := r
      rw [hv] at h
      dsimp only at h
      split at h
      next => exact absurd h (by simp)
      -- a comma brings more elements, a bracket ends them, and anything else is refused
      next c t _ =>
        split at h
        next =>
          obtain ⟨vs', -, rfl⟩ := read_of_map_eq_some h
          exact ⟨m, v, s', vs', rfl, hv, rfl⟩
        next =>
          split at h
          next => exact ⟨m, v, s', [], rfl, hv, (Prod.mk.inj (Option.some.inj h)).1.symm⟩
          next => exact absurd h (by simp)

/-- The first member of an object. -/
theorem members_head {n : ℕ} {ws key t s rest : CStr} {ms : List (CStr × Value)} (hws : Blank ws)
    (hkey : Verbatim key) (h : members n (member ws key t ++ s) = some (ms, rest)) :
    ∃ m v s' ms', n = m + 1 ∧ value m (t ++ s) = some (v, s') ∧ ms = (key, v) :: ms' := by
  cases n with
  | zero => rw [members] at h; exact absurd h (by simp)
  | succ m =>
    rw [members, member, List.append_assoc, List.append_assoc, List.cons_append,
      name_quoted hws hkey] at h
    dsimp only at h
    cases hv : value m (t ++ s) with
    | none => rw [hv] at h; exact absurd h (by simp)
    | some r =>
      obtain ⟨v, s'⟩ := r
      rw [hv] at h
      dsimp only at h
      split at h
      next => exact absurd h (by simp)
      -- a comma brings more members, a brace ends them, and anything else is refused
      next c u _ =>
        split at h
        next =>
          obtain ⟨ms', -, rfl⟩ := read_of_map_eq_some h
          exact ⟨m, v, s', ms', rfl, hv, rfl⟩
        next =>
          split at h
          next => exact ⟨m, v, s', [], rfl, hv, (Prod.mk.inj (Option.some.inj h)).1.symm⟩
          next => exact absurd h (by simp)

/-- An object whose first name is in its place is read from its members. -/
theorem members_of_object {ws key t ws' : CStr} (hws : Blank ws) {ts : List CStr} {n : ℕ}
    {s rest : CStr} {v : Value}
    (h : value n (object (member ws key t :: ts) ws' ++ s) = some (v, rest)) :
    ∃ m ms, n = m + 1 ∧ v = .obj ms ∧
      members m (List.intercalate [','] (member ws key t :: ts) ++ (ws' ++ '\x7d' :: s))
        = some (ms, rest) := by
  obtain ⟨z, hz⟩ := exists_intercalate_cons [','] (member ws key t) ts
  rw [object, List.cons_append, List.append_assoc, List.append_assoc, List.singleton_append] at h
  cases n with
  | zero => rw [value] at h; exact absurd h (by simp)
  | succ m =>
    rw [value_obj (by
      rw [hz, member, List.append_assoc, List.append_assoc, skip_blank hws, List.append_assoc,
        quoted, List.cons_append, skip_cons (by decide)]
      simp)] at h
    obtain ⟨ms, hms, rfl⟩ := read_of_map_eq_some h
    exact ⟨m, ms, rfl, rfl, hms⟩

/-- An array of objects is read from its values. -/
theorem elements_of_array {t ws : CStr} (hobj : ∀ s, (skip (t ++ s)).head? = some '\x7b')
    {ts : List CStr} {n : ℕ} {s rest : CStr} {v : Value}
    (h : value n (array (t :: ts) ws ++ s) = some (v, rest)) :
    ∃ m vs, n = m + 1 ∧ v = .arr vs ∧
      elements m (List.intercalate [','] (t :: ts) ++ (ws ++ ']' :: s)) = some (vs, rest) := by
  obtain ⟨z, hz⟩ := exists_intercalate_cons [','] t ts
  rw [array, List.cons_append, List.append_assoc, List.append_assoc, List.singleton_append] at h
  cases n with
  | zero => rw [value] at h; exact absurd h (by simp)
  | succ m =>
    rw [value_arr (by rw [hz, List.append_assoc, hobj]; decide)] at h
    obtain ⟨vs, hvs, rfl⟩ := read_of_map_eq_some h
    exact ⟨m, vs, rfl, rfl, hvs⟩

theorem head?_skip_object {ws : CStr} (hws : Blank ws) (ts : List CStr) (ws' s : CStr) :
    (skip (ws ++ object ts ws' ++ s)).head? = some '\x7b' := by
  rw [List.append_assoc, skip_blank hws, object, List.cons_append, skip_cons (by decide),
    List.head?_cons]

/-- The members in front are read, and the rest is what is left. -/
theorem members_append {ts ts' : List CStr} {ms all : List (CStr × Value)}
    (h : List.Forall₂ ReadsMember ts ms) (hne : ts' ≠ []) {n : ℕ} {s rest : CStr}
    (hn : (List.intercalate [','] (ts ++ ts')).length < n)
    (hread : members n (List.intercalate [','] (ts ++ ts') ++ s) = some (all, rest)) :
    ∃ m all', (List.intercalate [','] ts').length < m ∧
      members m (List.intercalate [','] ts' ++ s) = some (all', rest) ∧ all = ms ++ all' := by
  induction h generalizing n all with
  | nil => exact ⟨n, all, hn, hread, rfl⟩
  | @cons t m ts ms ht hts ih =>
    -- a member is left before the texts still to read, so a comma follows it
    have hcons : List.intercalate [','] (t :: (ts ++ ts'))
        = t ++ ([','] ++ List.intercalate [','] (ts ++ ts')) := by
      rw [List.intercalate_cons_of_ne_nil (List.append_ne_nil_of_right_ne_nil _ hne),
        List.append_assoc]
    rw [List.cons_append, hcons] at hn hread
    simp only [List.length_append, List.length_singleton] at hn
    obtain ⟨n, rfl⟩ := Nat.exists_eq_succ_of_ne_zero (n := n) (by omega)
    rw [List.append_assoc, List.append_assoc, List.singleton_append,
      members_comma ht (by omega)] at hread
    obtain ⟨all', hread', rfl⟩ := read_of_map_eq_some hread
    obtain ⟨m, all'', hm, hall, rfl⟩ := ih (by omega) hread'
    exact ⟨m, all'', hm, hall, rfl⟩

section Back

variable {α β : Type} {text : α → CStr} {val : α → Value} {read : Value → Option β} {out : α → β}
  {P : α → Prop} {Sep : CStr → Prop} {tail : CStr}

theorem mapM_cons_eq_some {v : Value} {vs : List Value} {b : β} {bs : List β} :
    (v :: vs).mapM read = some (b :: bs) ↔ read v = some b ∧ vs.mapM read = some bs := by
  simp [List.mapM_cons, Option.bind_eq_some_iff]

theorem mapM_map_eq_some (h : ∀ a, read (val a) = some (out a)) (as : List α) :
    (as.map val).mapM read = some (as.map out) := by
  induction as with
  | nil => rfl
  | cons a as ih => exact mapM_cons_eq_some.mpr ⟨h a, ih⟩

/-- **Reading back, item by item.** Where an item is laid out well if it is read back from
in front of what may follow it, every item of an array that is read back is laid out
well. -/
theorem elements_back (hreads : ∀ a, P a → Reads (text a) (val a))
    (hback : ∀ a n rest v s, (text a).length ≤ n → Sep rest →
      value n (text a ++ rest) = some (v, s) → read v = some (out a) → P a)
    (hcomma : ∀ a s, Sep (',' :: (text a ++ s))) (hclose : Sep tail) {as : List α} {n : ℕ}
    {vs : List Value} {rest : CStr} (hn : (List.intercalate [','] (as.map text)).length < n)
    (h : elements n (List.intercalate [','] (as.map text) ++ tail) = some (vs, rest))
    (hvs : vs.mapM read = some (as.map out)) : ∀ a ∈ as, P a := by
  induction as generalizing n vs with
  | nil => simp
  | cons a as ih =>
    obtain ⟨n, v, s, vs', rfl, hv, rfl⟩ := elements_head h
    obtain ⟨hread, hvs'⟩ := mapM_cons_eq_some.mp hvs
    cases as with
    | nil =>
      rw [List.map_cons, List.map_nil, List.intercalate_singleton] at hn hv
      exact List.forall_mem_singleton.mpr
        (hback a n tail v s (Nat.lt_succ_iff.mp hn) hclose hv hread)
    | cons b bs =>
      rw [List.map_cons, List.map_cons, List.intercalate_cons_cons] at hn hv h
      simp only [List.length_append, List.length_singleton] at hn
      rw [List.append_assoc, List.append_assoc, List.singleton_append] at hv h
      -- the first item is read back before the comma, so that the others are after it
      have hsep : Sep (',' :: (List.intercalate [','] (text b :: bs.map text) ++ tail)) := by
        obtain ⟨z, hz⟩ := exists_intercalate_cons [','] (text b) (bs.map text)
        rw [hz, List.append_assoc]
        exact hcomma b _
      have ha : P a := hback a n _ v s (by omega) hsep hv hread
      rw [elements_comma (hreads a ha) (by omega)] at h
      obtain ⟨vs'', hrest, hvs''⟩ := read_of_map_eq_some h
      obtain ⟨-, rfl⟩ := List.cons.inj hvs''
      exact List.forall_mem_cons.mpr ⟨ha, ih (by simpa using by omega) hrest hvs'⟩

end Back

end Json
