import Mathlib.Data.Char
import Mathlib.Data.List.Basic
import Mathlib.Data.List.TakeWhile
import Mathlib.Tactic.Common

/-!
# C strings, number parsing and number printing

A byte string is a list of characters, one for each byte. The functions are the
standard library's, in the C locale and with a 64-bit `long`:

* `strtol` — white space, one sign, decimal digits, saturation; it returns the
  value and the rest of the string its end pointer addresses.
* `fgets` — one line of a file, newline included, cut to the buffer.
* `fmtInt` — `printf` of `%d` or `%ld`.
* `snprintf` — the truncation to a buffer.
* `strcmpLe` — the order of `strcmp`.
* `utf8Decode` — the text that bytes encode in UTF-8, which is Python's view of a file.

`strtol_fmtInt` is the round trip: what was printed is parsed back in full.
`Denotes` says what a numeral is without a parser, and `strtol_of_denotes` and
`denotes_of_strtol` that `strtol` takes exactly the numerals to their end.
-/

namespace CText

/-- A C string, without its terminator. -/
abbrev CStr := List Char

/-- What is asked of the characters of a string is decided along the string, and not
along all characters. -/
instance (priority := high) decidableForallMem (p : Char → Prop) [DecidablePred p] (s : CStr) :
    Decidable (∀ c ∈ s, p c) := List.decidableBAll p s

/-- `isspace`. -/
def isspace (c : Char) : Bool := c == ' ' || (9 ≤ c.toNat && c.toNat ≤ 13)

/-- `LONG_MAX`. -/
def longMax : ℤ := 9223372036854775807

/-- `LONG_MIN`. -/
def longMin : ℤ := -9223372036854775808

/-- An optional sign and what follows it. -/
def splitSign : CStr → Bool × CStr
  | [] => (false, [])
  | c :: cs => if c = '-' then (true, cs) else if c = '+' then (false, cs) else (false, c :: cs)

/-- `strtol(s, &end, 10)`: the value and the string at `end`. Without a digit
nothing is consumed. -/
def strtol (s : CStr) : ℤ × CStr :=
  let signed := splitSign (s.dropWhile isspace)
  let digits := signed.2.takeWhile Char.isDigit
  if digits = [] then (0, s)
  else
    -- out of range, the value is the nearer end of the range
    let n : ℤ := Nat.ofDigitChars 10 digits 0
    let v := if signed.1 then -n else n
    (max longMin (min longMax v), signed.2.dropWhile Char.isDigit)

/-- `printf` of `%d` or `%ld`. -/
def fmtInt (n : ℤ) : CStr :=
  if n < 0 then '-' :: Nat.toDigits 10 n.natAbs else Nat.toDigits 10 n.natAbs

/-- `snprintf` into a buffer of `size` bytes, given the text to print. -/
def snprintf (size : ℕ) (text : CStr) : CStr := text.take (size - 1)

/-- The first line of a file, newline included. -/
def firstLine : CStr → CStr
  | [] => []
  | c :: cs => if c = '\n' then [c] else c :: firstLine cs

/-- `fgets` of a freshly opened file into a buffer of `size` bytes; `none` is
the null pointer it returns at the end of the file. -/
def fgets (size : ℕ) (file : CStr) : Option CStr :=
  let line := (firstLine file).take (size - 1)
  if line = [] then none else some line

/-- The C string in a buffer after `buf[strcspn(buf, "\n")] = 0`: it ends at the
first newline or terminator. -/
def chomp (buf : CStr) : CStr := buf.takeWhile fun c => c != '\n' && c != '\x00'

/-- `strcmp(a, b) <= 0`. -/
def strcmpLe : CStr → CStr → Bool
  | [], _ => true
  | _ :: _, [] => false
  | a :: as, b :: bs => if a < b then true else if b < a then false else strcmpLe as bs

/-- What is left when a run is dropped does not go on with it. -/
theorem head?_dropWhile_any (p : Char → Bool) (s : CStr) : (s.dropWhile p).head?.any p = false := by
  have hhead := List.head?_dropWhile_not p s
  cases hdrop : (s.dropWhile p).head? with
  | none => rfl
  | some c => rwa [hdrop] at hhead

/-- A run ends where something else begins. -/
theorem dropWhile_append_of_head {p : Char → Bool} {s t : CStr} (hs : ∀ c ∈ s, p c = true)
    (ht : t.head?.any p = false) : (s ++ t).dropWhile p = t := by
  rw [List.dropWhile_append_of_pos hs]
  cases t with
  | nil => rfl
  | cons c cs => exact List.dropWhile_cons_of_neg (by simpa using ht)

theorem takeWhile_append_of_head {p : Char → Bool} {s t : CStr} (hs : ∀ c ∈ s, p c = true)
    (ht : t.head?.any p = false) : (s ++ t).takeWhile p = s := by
  rw [List.takeWhile_append_of_pos hs]
  cases t with
  | nil => simp
  | cons c cs => rw [List.takeWhile_cons_of_neg (by simpa using ht), List.append_nil]

/-- What is left is what a run of the dropped stands before. -/
theorem dropWhile_eq_iff {p : Char → Bool} {s t : CStr} :
    s.dropWhile p = t ↔ ∃ ws, s = ws ++ t ∧ (∀ c ∈ ws, p c = true) ∧ t.head?.any p = false := by
  constructor
  · rintro rfl
    exact ⟨s.takeWhile p, List.takeWhile_append_dropWhile.symm,
      fun c hc => List.mem_takeWhile_imp hc, head?_dropWhile_any p s⟩
  · rintro ⟨ws, rfl, hws, ht⟩
    exact dropWhile_append_of_head hws ht

/-! ### The order of `strcmp` -/

/-- The first characters decide, and the rest only when they are the same. -/
theorem strcmpLe_cons (a b : Char) (as bs : CStr) :
    strcmpLe (a :: as) (b :: bs) = true ↔ a < b ∨ (a = b ∧ strcmpLe as bs = true) := by
  rw [strcmpLe]
  rcases lt_trichotomy a b with h | rfl | h
  · simp [h]
  · simp
  · simp [h, h.not_gt, h.ne']

theorem strcmpLe_total (a b : CStr) : strcmpLe a b = true ∨ strcmpLe b a = true := by
  induction a generalizing b with
  | nil => exact Or.inl rfl
  | cons c cs ih =>
    cases b with
    | nil => exact Or.inr rfl
    | cons d ds =>
      rw [strcmpLe_cons, strcmpLe_cons]
      rcases lt_trichotomy c d with h | rfl | h
      · exact Or.inl (Or.inl h)
      · exact (ih ds).imp (fun h => Or.inr ⟨rfl, h⟩) (fun h => Or.inr ⟨rfl, h⟩)
      · exact Or.inr (Or.inl h)

theorem strcmpLe_trans {a b c : CStr} (hab : strcmpLe a b = true) (hbc : strcmpLe b c = true) :
    strcmpLe a c = true := by
  induction a generalizing b c with
  | nil => rfl
  | cons x xs ih =>
    cases b with
    | nil => exact absurd hab (by simp [strcmpLe])
    | cons y ys =>
      cases c with
      | nil => exact absurd hbc (by simp [strcmpLe])
      | cons z zs =>
        rw [strcmpLe_cons] at hab hbc ⊢
        rcases hab with hxy | ⟨rfl, hab⟩
        · rcases hbc with hyz | ⟨rfl, -⟩
          · exact Or.inl (hxy.trans hyz)
          · exact Or.inl hxy
        · exact hbc.imp_right fun ⟨hyz, hbc⟩ => ⟨hyz, ih hab hbc⟩

theorem strcmpLe_antisymm {a b : CStr} (hab : strcmpLe a b = true) (hba : strcmpLe b a = true) :
    a = b := by
  induction a generalizing b with
  | nil =>
    cases b with
    | nil => rfl
    | cons y ys => exact absurd hba (by simp [strcmpLe])
  | cons x xs ih =>
    cases b with
    | nil => exact absurd hab (by simp [strcmpLe])
    | cons y ys =>
      rw [strcmpLe_cons] at hab hba
      rcases hab with hlt | ⟨rfl, hab⟩
      · rcases hba with hgt | ⟨rfl, -⟩
        exacts [absurd hgt hlt.not_gt, absurd hlt (lt_irrefl _)]
      · rcases hba with hgt | ⟨-, hba⟩
        exacts [absurd hgt (lt_irrefl _), by rw [ih hab hba]]

/-! ### Printed numbers -/

theorem isDigit_of_mem_toDigits {n : ℕ} {c : Char} (h : c ∈ Nat.toDigits 10 n) :
    c.isDigit = true :=
  Nat.isDigit_of_mem_toDigits (by decide) (by decide) h

/-- No digit is white space, a sign or the end of a line. -/
theorem not_special_of_isDigit {c : Char} (h : c.isDigit = true) :
    isspace c = false ∧ c ≠ '-' ∧ c ≠ '+' ∧ c ≠ '\n' ∧ c ≠ '\x00' := by
  refine ⟨?_, ?_, ?_, ?_, ?_⟩
  -- the digits lie above every white-space character
  · have hlo : 48 ≤ c.toNat := by
      simp only [Char.isDigit, Bool.and_eq_true, decide_eq_true_eq] at h
      exact UInt32.le_iff_toNat_le.mp h.1
    have hsp : c ≠ ' ' := by rintro rfl; exact absurd h (by decide)
    have hhi : ¬ c.toNat ≤ 13 := by omega
    simp [isspace, hsp, hhi]
  -- and the other four are no digits
  all_goals
    rintro rfl
    exact absurd h (by decide)

theorem takeWhile_isDigit_toDigits (n : ℕ) :
    (Nat.toDigits 10 n).takeWhile Char.isDigit = Nat.toDigits 10 n :=
  List.takeWhile_eq_self_iff.mpr fun _ h => isDigit_of_mem_toDigits h

theorem dropWhile_isDigit_toDigits (n : ℕ) :
    (Nat.toDigits 10 n).dropWhile Char.isDigit = [] :=
  List.dropWhile_eq_nil_iff.mpr fun _ h => isDigit_of_mem_toDigits h

theorem fmtInt_of_nonneg {n : ℤ} (h : 0 ≤ n) : fmtInt n = Nat.toDigits 10 n.natAbs := by
  rw [fmtInt, if_neg (by omega)]

theorem fmtInt_ne_nil (n : ℤ) : fmtInt n ≠ [] := by
  unfold fmtInt
  split
  · simp
  · exact Nat.toDigits_ne_nil

/-- A printed number holds no newline and no terminator. -/
theorem not_eol_of_mem_fmtInt {n : ℤ} {c : Char} (h : c ∈ fmtInt n) :
    c ≠ '\n' ∧ c ≠ '\x00' := by
  have hdigit : c ∈ Nat.toDigits 10 n.natAbs → c ≠ '\n' ∧ c ≠ '\x00' := fun hm =>
    (not_special_of_isDigit (isDigit_of_mem_toDigits hm)).2.2.2
  unfold fmtInt at h
  split at h
  · rcases List.mem_cons.mp h with rfl | hm
    · decide
    · exact hdigit hm
  · exact hdigit h

/-- The digits of a printed number, behind its sign. -/
theorem splitSign_fmtInt (n : ℤ) :
    splitSign ((fmtInt n).dropWhile isspace) = (decide (n < 0), Nat.toDigits 10 n.natAbs) := by
  by_cases hn : n < 0
  -- the sign is the first character, and no white space
  · rw [fmtInt, if_pos hn, List.dropWhile_cons_of_neg (by decide)]
    simp [splitSign, hn]
  · rw [fmtInt, if_neg hn]
    cases hd : Nat.toDigits 10 n.natAbs with
    | nil => exact absurd hd Nat.toDigits_ne_nil
    | cons c cs =>
      -- the first digit is neither skipped nor taken for a sign
      obtain ⟨hsp, hminus, hplus, -, -⟩ :=
        not_special_of_isDigit (isDigit_of_mem_toDigits (hd ▸ List.mem_cons_self : c ∈ _))
      rw [List.dropWhile_cons_of_neg (by simp [hsp])]
      simp [splitSign, hminus, hplus, hn]

/-- **Round trip.** A number that fits a `long`, printed and parsed, comes back
with nothing left over. -/
theorem strtol_fmtInt {n : ℤ} (hlo : longMin ≤ n) (hhi : n ≤ longMax) :
    strtol (fmtInt n) = (n, []) := by
  -- sign and magnitude make up the number again
  have hval : (if decide (n < 0) = true then -(n.natAbs : ℤ) else n.natAbs) = n := by
    split
    next h => have := of_decide_eq_true h; omega
    next h => have : ¬ n < 0 := fun hn => h (decide_eq_true hn); omega
  simp only [strtol, splitSign_fmtInt, takeWhile_isDigit_toDigits, dropWhile_isDigit_toDigits,
    Nat.ofDigitChars_ten_toDigits, if_neg Nat.toDigits_ne_nil, hval]
  -- within the range nothing saturates
  have hsat : max longMin (min longMax n) = n := by omega
  rw [hsat]

/-! ### Numerals -/

/-- The value of a run of digits behind a sign. -/
def signedValue (minus : Bool) (digits : CStr) : ℤ :=
  if minus then -(Nat.ofDigitChars 10 digits 0 : ℤ) else Nat.ofDigitChars 10 digits 0

/-- A text denotes a number: in its entirety it is white space, one sign or none,
and one or more digits. -/
def Denotes (s : CStr) (n : ℤ) : Prop :=
  ∃ ws sign digits : CStr, s = ws ++ (sign ++ digits) ∧ (∀ c ∈ ws, isspace c = true) ∧
    (sign = [] ∨ sign = ['+'] ∨ sign = ['-']) ∧ digits ≠ [] ∧
    (∀ c ∈ digits, c.isDigit = true) ∧ n = signedValue (sign = ['-']) digits

/-- The sign and what follows it, past the leading white space. -/
def signedRest (s : CStr) : Bool × CStr := splitSign (s.dropWhile isspace)

theorem signedRest_eq {ws sign digits : CStr} (hws : ∀ c ∈ ws, isspace c = true)
    (hsign : sign = [] ∨ sign = ['+'] ∨ sign = ['-']) (hne : digits ≠ [])
    (hdigits : ∀ c ∈ digits, c.isDigit = true) (tail : CStr) :
    signedRest (ws ++ (sign ++ (digits ++ tail))) = (decide (sign = ['-']), digits ++ tail) := by
  obtain ⟨d, ds, rfl⟩ := List.exists_cons_of_ne_nil hne
  -- neither the sign nor the first digit is white space, and the digit is no sign
  obtain ⟨hsp, hminus, hplus, -, -⟩ := not_special_of_isDigit (hdigits d List.mem_cons_self)
  rw [signedRest, List.dropWhile_append_of_pos hws]
  rcases hsign with rfl | rfl | rfl
  · rw [List.nil_append, List.cons_append, List.dropWhile_cons_of_neg (by simp [hsp])]
    simp [splitSign, hminus, hplus]
  · rw [List.cons_append, List.dropWhile_cons_of_neg (by decide)]
    simp [splitSign]
  · rw [List.cons_append, List.dropWhile_cons_of_neg (by decide)]
    simp [splitSign]

/-- Being a numeral is a matter of what follows the sign. -/
theorem denotes_iff {s : CStr} {n : ℤ} : Denotes s n ↔ (signedRest s).2 ≠ [] ∧
    (∀ c ∈ (signedRest s).2, c.isDigit = true) ∧
      n = signedValue (signedRest s).1 (signedRest s).2 := by
  constructor
  · rintro ⟨ws, sign, digits, rfl, hws, hsign, hne, hdigits, rfl⟩
    have hrest := signedRest_eq hws hsign hne hdigits []
    simp only [List.append_nil] at hrest
    rw [hrest]
    exact ⟨hne, hdigits, rfl⟩
  · rintro ⟨hne, hdigits, rfl⟩
    -- the text is its white space, the sign that was split off, and the rest
    have hsplit : ∃ sign, s.dropWhile isspace = sign ++ (signedRest s).2 ∧
        (sign = [] ∨ sign = ['+'] ∨ sign = ['-']) ∧ (signedRest s).1 = decide (sign = ['-']) := by
      unfold signedRest
      cases s.dropWhile isspace with
      | nil => exact ⟨[], rfl, Or.inl rfl, rfl⟩
      | cons c cs =>
        rw [splitSign]
        by_cases hminus : c = '-'
        · exact ⟨['-'], by simp [hminus], Or.inr (Or.inr rfl), by simp [hminus]⟩
        by_cases hplus : c = '+'
        · exact ⟨['+'], by simp [hplus], Or.inr (Or.inl rfl), by simp [hplus]⟩
        · exact ⟨[], by simp [hminus, hplus], Or.inl rfl, by simp [hminus, hplus]⟩
    obtain ⟨sign, hrest, hsign, hminus⟩ := hsplit
    refine ⟨s.takeWhile isspace, sign, (signedRest s).2, ?_, ?_, hsign, hne, hdigits, ?_⟩
    · rw [← hrest, List.takeWhile_append_dropWhile]
    · exact fun c hc => List.mem_takeWhile_imp hc
    · rw [hminus]

/-- A text denotes one number at most. -/
theorem Denotes.unique {s : CStr} {m n : ℤ} (hm : Denotes s m) (hn : Denotes s n) : m = n :=
  (denotes_iff.mp hm).2.2.trans (denotes_iff.mp hn).2.2.symm

theorem Denotes.ne_nil {s : CStr} {n : ℤ} (h : Denotes s n) : s ≠ [] := by
  rintro rfl
  exact (denotes_iff.mp h).1 rfl

/-- A numeral is parsed to its end, to its number or the nearer end of the range. -/
theorem strtol_of_denotes {s : CStr} {n : ℤ} (h : Denotes s n) :
    strtol s = (max longMin (min longMax n), []) := by
  obtain ⟨hne, hdigits, rfl⟩ := denotes_iff.mp h
  have htake : (signedRest s).2.takeWhile Char.isDigit = (signedRest s).2 :=
    List.takeWhile_eq_self_iff.mpr hdigits
  have hdrop : (signedRest s).2.dropWhile Char.isDigit = [] := List.dropWhile_eq_nil_iff.mpr hdigits
  simp only [signedRest] at hne htake hdrop ⊢
  simp only [strtol, htake, hdrop, if_neg hne, signedValue]

/-- What is parsed to its end, and not refused at its start, is a numeral. -/
theorem denotes_of_strtol {s : CStr} (hend : (strtol s).2 = []) (hs : (strtol s).2 ≠ s) :
    ∃ n, Denotes s n := by
  refine ⟨_, denotes_iff.mpr ⟨?_, ?_, rfl⟩⟩
  · intro hnil
    refine hs ?_
    unfold strtol
    simp only [signedRest] at hnil
    simp [hnil]
  · unfold strtol at hend hs
    dsimp only at hend hs
    split at hend
    next hno => rw [if_pos hno] at hs; exact absurd rfl hs
    next => exact List.dropWhile_eq_nil_iff.mp hend

/-- A prefix of a numeral that is a numeral for the same number: it is zero. -/
theorem Denotes.eq_zero_of_append {p q : CStr} {n : ℤ} (hp : Denotes p n) (hpq : Denotes (p ++ q) n)
    (hq : q ≠ []) : n = 0 := by
  obtain ⟨ws, sign, digits, rfl, hws, hsign, hne, hdigits, hn⟩ := hp
  rw [List.append_assoc, List.append_assoc, denotes_iff,
    signedRest_eq hws hsign hne hdigits q] at hpq
  obtain ⟨-, -, hn'⟩ := hpq
  -- the longer run of digits is worth ten times the shorter, at least
  have hgrow : Nat.ofDigitChars 10 digits 0 * 10 ≤ Nat.ofDigitChars 10 (digits ++ q) 0 := by
    have hpow : 10 ^ 1 ≤ 10 ^ q.length :=
      Nat.pow_le_pow_right (by decide) (List.length_pos_iff.mpr hq)
    calc Nat.ofDigitChars 10 digits 0 * 10
        ≤ 10 ^ q.length * Nat.ofDigitChars 10 digits 0 := by
          rw [Nat.mul_comm]; exact Nat.mul_le_mul_right _ hpow
      _ ≤ 10 ^ q.length * Nat.ofDigitChars 10 digits 0 + Nat.ofDigitChars 10 q 0 :=
          Nat.le_add_right _ _
      _ = Nat.ofDigitChars 10 (digits ++ q) 0 := by
          rw [Nat.ofDigitChars_append, ← Nat.ofDigitChars_eq_ofDigitChars_zero]
  simp only [signedValue] at hn hn'
  by_cases hminus : decide (sign = ['-']) = true
  · rw [if_pos hminus] at hn hn'
    omega
  · rw [if_neg hminus] at hn hn'
    omega

/-! ### Lines of files -/

theorem firstLine_line {s : CStr} (h : '\n' ∉ s) (rest : CStr) :
    firstLine (s ++ '\n' :: rest) = s ++ ['\n'] := by
  induction s with
  | nil => simp [firstLine]
  | cons c cs ih =>
    obtain ⟨hc, hcs⟩ := List.ne_and_not_mem_of_not_mem_cons h
    rw [List.cons_append, firstLine, if_neg (Ne.symm hc), ih hcs, List.cons_append]

/-- Reading a line, then cutting it at the newline, gives as much of the line as
the buffer takes. -/
theorem fgets_chomp_cut {size : ℕ} {s : CStr} (hnl : '\n' ∉ s) (hnul : '\x00' ∉ s)
    (hsize : 1 < size) : (fgets size (s ++ ['\n'])).map chomp = some (s.take (size - 1)) := by
  have hkeep : ∀ c ∈ s.take (size - 1), (c != '\n' && c != '\x00') = true := by
    intro c hc
    have h1 : c ≠ '\n' := fun h => hnl (h ▸ List.mem_of_mem_take hc)
    have h2 : c ≠ '\x00' := fun h => hnul (h ▸ List.mem_of_mem_take hc)
    simp [h1, h2]
  have hne : (s ++ ['\n']).take (size - 1) ≠ [] := by
    rw [Ne, List.take_eq_nil_iff]
    simp only [List.append_eq_nil_iff, List.cons_ne_nil, and_false, or_false]
    omega
  rw [fgets, firstLine_line hnl [], if_neg hne, Option.map_some, List.take_append, chomp,
    List.takeWhile_append_of_pos hkeep]
  -- what is left of the newline, if the line fits, goes
  cases size - 1 - s.length with
  | zero => simp
  | succ k => simp

/-- A line that fits the buffer is read whole. -/
theorem fgets_chomp_line {size : ℕ} {s : CStr} (hnl : '\n' ∉ s) (hnul : '\x00' ∉ s)
    (hfit : s.length + 1 < size) :
    (fgets size (s ++ ['\n'])).map chomp = some s := by
  rw [fgets_chomp_cut hnl hnul (by omega), List.take_of_length_le (by omega)]

/-- The line a buffer holds is the beginning of the line of the file. -/
theorem chomp_take_firstLine (size : ℕ) (file : CStr) :
    chomp ((firstLine file).take size) = (chomp file).take size := by
  induction file generalizing size with
  | nil => simp [firstLine, chomp]
  | cons c cs ih =>
    cases size with
    | zero => simp [chomp]
    | succ k =>
      have ih := ih k
      unfold chomp at ih ⊢
      rw [firstLine]
      -- a newline or a NUL ends both sides; any other character is kept by both while there is room
      by_cases hnl : c = '\n'
      · simp [hnl]
      · rw [if_neg hnl, List.take_succ_cons]
        by_cases hnul : c = '\x00'
        · simp [hnul]
        · rw [List.takeWhile_cons_of_pos (by simp [hnl, hnul]), ih,
            List.takeWhile_cons_of_pos (by simp [hnl, hnul]), List.take_succ_cons]

/-- A line that is shorter than the buffer is read as it stands in the file. -/
theorem fgets_chomp_eq_some_iff {size : ℕ} {file s : CStr} (hs : s ≠ [])
    (hfit : s.length + 1 < size) : (fgets size file).map chomp = some s ↔ chomp file = s := by
  have hcut : chomp ((firstLine file).take (size - 1)) = s ↔ chomp file = s := by
    rw [chomp_take_firstLine]
    refine ⟨fun h => ?_, fun h => by rw [h, List.take_of_length_le (by omega)]⟩
    -- the beginning is too short to have been cut
    have hlen := congrArg List.length h
    rw [List.length_take] at hlen
    rw [← h, List.take_of_length_le (by omega)]
  unfold fgets
  dsimp only
  split
  next hnil =>
    rw [hnil] at hcut
    rw [Option.map_none, ← hcut]
    exact ⟨fun h => absurd h (by simp), fun h => absurd h.symm hs⟩
  next => rw [Option.map_some, Option.some.injEq, hcut]

/-! ### UTF-8 -/

/-- Strict decoding, byte by byte. `left` more bytes belong to the character begun; `acc` is
its value so far, and `least` the least value that takes as many bytes. -/
def utf8Go : (left acc least : ℕ) → CStr → Option CStr
  | 0, _, _, [] => some []
  | _ + 1, _, _, [] => none
  | 0, _, _, c :: cs =>
    let b := c.toNat
    if b < 0x80 then (utf8Go 0 0 0 cs).map (c :: ·)
    else if 0xc0 ≤ b ∧ b < 0xe0 then utf8Go 1 (b - 0xc0) 0x80 cs
    else if 0xe0 ≤ b ∧ b < 0xf0 then utf8Go 2 (b - 0xe0) 0x800 cs
    else if 0xf0 ≤ b ∧ b < 0xf8 then utf8Go 3 (b - 0xf0) 0x10000 cs
    else none
  | left + 1, acc, least, c :: cs =>
    if 0x80 ≤ c.toNat ∧ c.toNat < 0xc0 then
      let acc := 64 * acc + (c.toNat - 0x80)
      if left = 0 then
        -- no overlong form, no surrogate, nothing past the last code point
        if least ≤ acc ∧ acc.isValidChar then (utf8Go 0 0 0 cs).map (Char.ofNat acc :: ·)
        else none
      else utf8Go left acc least cs
    else none

/-- The text that bytes encode; `none` if they are not UTF-8. -/
def utf8Decode (bytes : CStr) : Option CStr := utf8Go 0 0 0 bytes

/-- ASCII stands for itself. -/
theorem utf8Decode_ascii {s : CStr} (h : ∀ c ∈ s, c.toNat < 128) : utf8Decode s = some s := by
  unfold utf8Decode
  induction s with
  | nil => rfl
  | cons c cs ih =>
    obtain ⟨hc, hcs⟩ := List.forall_mem_cons.mp h
    rw [utf8Go, if_pos hc, ih hcs, Option.map_some]

-- a no-break space, a byte that is never UTF-8, an overlong slash and a surrogate
example : utf8Decode ['\xc2', '\xa0', 'a'] = some ['\xa0', 'a'] ∧ utf8Decode ['a', '\xff'] = none ∧
    utf8Decode ['\xc0', '\xaf'] = none ∧ utf8Decode ['\xed', '\xa0', '\x80'] = none := by
  decide

end CText
