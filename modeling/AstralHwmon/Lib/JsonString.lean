import AstralHwmon.Lib.CText

/-!
# Strings of a JSON text

A JSON text is UTF-8, and a string in it is a sequence of characters with escapes in
between, from one quote to the next. `scan` reads such a string, byte by byte, from
after its opening quote, and gives back its bytes and what comes after the closing
quote. `Mode` is where it stands: between two characters or inside one, with the bytes
that one still needs, or in an escape; `Mode.next` is what it does with a byte.

A text is `Verbatim` when a string holds it as it stands: it is UTF-8, without a quote,
a backslash or a control character. `Verbatim.scan` reads it back. And nothing else is
read back: a string that the scanner finds where a text was put between two quotes is
no longer than the text, and shorter if there is an escape in it (`Mode.next_debt`,
`scan_shorter_or_verbatim`). That needs a look at what follows the closing quote, which
a backslash before it would take into the string; it must not be the rest of one, and is
none if its line ends before a quote (`scan_newline`).
-/

open CText

namespace Json

/-! ### UTF-8 -/

/-- The ranges of the bytes that go on a character, given its first byte. -/
def continuation (c : Char) : Option (List (ℕ × ℕ)) :=
  let b := c.toNat
  if b ≤ 0x7f then some []
  else if 0xc2 ≤ b ∧ b ≤ 0xdf then some [(0x80, 0xbf)]
  -- no overlong forms and no surrogates
  else if b = 0xe0 then some [(0xa0, 0xbf), (0x80, 0xbf)]
  else if b = 0xed then some [(0x80, 0x9f), (0x80, 0xbf)]
  else if 0xe1 ≤ b ∧ b ≤ 0xef then some [(0x80, 0xbf), (0x80, 0xbf)]
  -- no overlong forms and nothing past the last code point
  else if b = 0xf0 then some [(0x90, 0xbf), (0x80, 0xbf), (0x80, 0xbf)]
  else if 0xf1 ≤ b ∧ b ≤ 0xf3 then some [(0x80, 0xbf), (0x80, 0xbf), (0x80, 0xbf)]
  else if b = 0xf4 then some [(0x80, 0x8f), (0x80, 0xbf), (0x80, 0xbf)]
  else none

/-- What is owed after a byte: it goes on the character that has begun, or begins one. -/
def owedAfter : List (ℕ × ℕ) → Char → Option (List (ℕ × ℕ))
  | [], c => continuation c
  | (lo, hi) :: owed, c => if lo ≤ c.toNat ∧ c.toNat ≤ hi then some owed else none

/-- A text is the bytes owed by a character that has begun, and then characters. -/
def utf8From : List (ℕ × ℕ) → CStr → Bool
  | owed, [] => owed.isEmpty
  | owed, c :: s =>
    match owedAfter owed c with
    | some owed => utf8From owed s
    | none => false

/-- A text is UTF-8. -/
def Utf8 (s : CStr) : Prop := utf8From [] s = true

instance (s : CStr) : Decidable (Utf8 s) := inferInstanceAs (Decidable (_ = true))

/-- A character that a JSON string holds as it stands, if it is part of UTF-8. -/
def Clean (c : Char) : Prop := c ≠ '"' ∧ c ≠ '\\' ∧ 0x20 ≤ c.toNat

instance (c : Char) : Decidable (Clean c) := inferInstanceAs (Decidable (_ ∧ _ ∧ _))

/-- A text that a JSON string holds as it stands. -/
structure Verbatim (s : CStr) : Prop where
  clean : ∀ c ∈ s, Clean c
  utf8 : Utf8 s

theorem utf8From_cons {owed owed' : List (ℕ × ℕ)} {c : Char} (h : owedAfter owed c = some owed')
    (s : CStr) : utf8From owed (c :: s) = utf8From owed' s := by
  rw [utf8From, h]

theorem utf8From_cons_eq_true {owed : List (ℕ × ℕ)} {c : Char} {s : CStr}
    (h : utf8From owed (c :: s) = true) :
    ∃ owed', owedAfter owed c = some owed' ∧ utf8From owed' s = true := by
  rw [utf8From] at h
  cases howed : owedAfter owed c with
  | none => rw [howed] at h; exact absurd h (by simp)
  | some owed' => rw [howed] at h; exact ⟨owed', rfl, h⟩

/-! ### The scanner -/

/-- Where the scanner stands in a string. -/
inductive Mode
  /-- In a character that still owes some bytes, or between two. -/
  | char (owed : List (ℕ × ℕ))
  /-- After a backslash. -/
  | escape
  /-- In `\u`, with `k` hexadecimal digits to come, `n` the number so far, after a high
  surrogate or not. -/
  | hex (k n : ℕ) (high : Option ℕ)
  /-- After a high surrogate, before the backslash and before the `u` of the low one. -/
  | lowBackslash (high : ℕ)
  | lowU (high : ℕ)

/-- The character that stands behind a backslash. -/
def escaped (c : Char) : Option Char :=
  if c = '"' ∨ c = '\\' ∨ c = '/' then some c
  else if c = 'b' then some '\x08'
  else if c = 'f' then some '\x0c'
  else if c = 'n' then some '\n'
  else if c = 'r' then some '\x0d'
  else if c = 't' then some '\t'
  else none

/-- The value of a hexadecimal digit. -/
def hexDigit (c : Char) : Option ℕ :=
  if c.isDigit then some (c.toNat - 48)
  else if 'a' ≤ c ∧ c ≤ 'f' then some (c.toNat - 87)
  else if 'A' ≤ c ∧ c ≤ 'F' then some (c.toNat - 55)
  else none

/-- The bytes of a code point. -/
def utf8Bytes (n : ℕ) : CStr :=
  if n < 0x80 then [Char.ofNat n]
  else if n < 0x800 then [Char.ofNat (0xc0 + n / 64), Char.ofNat (0x80 + n % 64)]
  else if n < 0x10000 then
    [Char.ofNat (0xe0 + n / 4096), Char.ofNat (0x80 + n / 64 % 64), Char.ofNat (0x80 + n % 64)]
  else
    [Char.ofNat (0xf0 + n / 262144), Char.ofNat (0x80 + n / 4096 % 64),
      Char.ofNat (0x80 + n / 64 % 64), Char.ofNat (0x80 + n % 64)]

/-- The bytes and the mode after a digit that makes the number `n`, the `k`-th from the
end. -/
def afterDigit (k n : ℕ) (high : Option ℕ) : Option (CStr × Mode) :=
  if 1 < k then some ([], .hex (k - 1) n high)
  else
    match high with
    | none =>
      if n < 0xd800 ∨ 0xdfff < n then some (utf8Bytes n, .char [])
      -- a high surrogate waits for its low one, and nothing waits for a low one
      else if n < 0xdc00 then some ([], .lowBackslash n)
      else none
    | some h =>
      if 0xdc00 ≤ n ∧ n ≤ 0xdfff then
        some (utf8Bytes (0x10000 + (h - 0xd800) * 1024 + (n - 0xdc00)), .char [])
      else none

/-- The bytes and the mode after a byte of the string. -/
def Mode.next : Mode → Char → Option (CStr × Mode)
  | .char owed, c =>
    if owed = [] ∧ c = '\\' then some ([], .escape)
    else if owed = [] ∧ c.toNat < 0x20 then none
    else (owedAfter owed c).map fun owed => ([c], .char owed)
  | .escape, c =>
    if c = 'u' then some ([], .hex 4 0 none) else (escaped c).map fun e => ([e], .char [])
  | .hex k n high, c => (hexDigit c).bind fun d => afterDigit k (16 * n + d) high
  | .lowBackslash h, c => if c = '\\' then some ([], .lowU h) else none
  | .lowU h, c => if c = 'u' then some ([], .hex 4 0 (some h)) else none

/-- The quote that closes the string. -/
def Mode.closes : Mode → Char → Bool
  | .char [], c => c == '"'
  | _, _ => false

/-- The bytes of a string, and what follows its closing quote. -/
def scan : Mode → CStr → Option (CStr × CStr)
  | _, [] => none
  | m, c :: s =>
    if m.closes c then some ([], s)
    else
      match m.next c with
      | none => none
      | some (bytes, m) => (scan m s).map fun (v, rest) => (bytes ++ v, rest)

/-- A parser whose result is put into a value has read it. -/
theorem read_of_map_eq_some {α β : Type} {f : α → β} {r : Option (α × CStr)} {b : β} {rest : CStr}
    (h : (r.map fun (a, s) => (f a, s)) = some (b, rest)) : ∃ a, r = some (a, rest) ∧ b = f a := by
  obtain ⟨⟨a, s⟩, hr, heq⟩ := Option.map_eq_some_iff.mp h
  obtain ⟨rfl, rfl⟩ := Prod.mk.inj heq
  exact ⟨a, hr, rfl⟩

theorem Mode.closes_iff {m : Mode} {c : Char} : m.closes c = true ↔ m = .char [] ∧ c = '"' := by
  cases m with
  | char owed => cases owed <;> simp [Mode.closes]
  | _ => simp [Mode.closes]

theorem scan_next {m m' : Mode} {c : Char} {bytes : CStr} (hc : c ≠ '"')
    (h : m.next c = some (bytes, m')) (s : CStr) :
    scan m (c :: s) = (scan m' s).map fun (v, rest) => (bytes ++ v, rest) := by
  have hcloses : ¬ m.closes c = true := fun h => hc (Mode.closes_iff.mp h).2
  rw [scan, if_neg hcloses, h]

/-- The string closes, or the scan goes on with the next byte. -/
theorem scan_cons_eq_some {m : Mode} {c : Char} {s v rest : CStr}
    (h : scan m (c :: s) = some (v, rest)) :
    (m = .char [] ∧ c = '"' ∧ v = [] ∧ rest = s) ∨
      (¬ (m = .char [] ∧ c = '"') ∧ ∃ bytes m' v', m.next c = some (bytes, m') ∧
        scan m' s = some (v', rest) ∧ v = bytes ++ v') := by
  rw [scan] at h
  split at h
  next hcloses =>
    obtain ⟨rfl, rfl⟩ := Prod.mk.inj (Option.some.inj h)
    obtain ⟨hm, hc⟩ := Mode.closes_iff.mp hcloses
    exact Or.inl ⟨hm, hc, rfl, rfl⟩
  next hcloses =>
    split at h
    next => exact absurd h (by simp)
    next bytes m' hnext =>
      obtain ⟨v', hscan, rfl⟩ := read_of_map_eq_some h
      exact Or.inr ⟨fun hm => hcloses (Mode.closes_iff.mpr hm), bytes, m', v', hnext, hscan, rfl⟩

/-- A byte of a character, or the backslash of an escape. -/
theorem next_char_eq_some {owed : List (ℕ × ℕ)} {c : Char} {bytes : CStr} {m : Mode}
    (h : (Mode.char owed).next c = some (bytes, m)) : (bytes = [] ∧ m = .escape) ∨
      (¬ (owed = [] ∧ (c = '\\' ∨ c.toNat < 0x20)) ∧
        ∃ owed', owedAfter owed c = some owed' ∧ bytes = [c] ∧ m = .char owed') := by
  rw [Mode.next] at h
  split at h
  next =>
    obtain ⟨rfl, rfl⟩ := Prod.mk.inj (Option.some.inj h)
    exact Or.inl ⟨rfl, rfl⟩
  next hbackslash =>
    split at h
    next => exact absurd h (by simp)
    next hcontrol =>
      obtain ⟨owed', howed, heq⟩ := Option.map_eq_some_iff.mp h
      obtain ⟨rfl, rfl⟩ := Prod.mk.inj heq
      -- the backslash and the control characters are taken only when no byte is owed
      refine Or.inr ⟨?_, owed', howed, rfl, rfl⟩
      rintro ⟨hnil, hc | hc⟩
      exacts [hbackslash ⟨hnil, hc⟩, hcontrol ⟨hnil, hc⟩]

/-! ### Verbatim texts -/

/-- A clean byte of UTF-8 is taken as it stands. -/
theorem next_clean {owed owed' : List (ℕ × ℕ)} {c : Char} (hc : Clean c)
    (h : owedAfter owed c = some owed') :
    (Mode.char owed).next c = some ([c], .char owed') := by
  have hbackslash : ¬ (owed = [] ∧ c = '\\') := fun h => hc.2.1 h.2
  have hcontrol : ¬ (owed = [] ∧ c.toNat < 0x20) := fun h => Nat.not_lt.mpr hc.2.2 h.2
  rw [Mode.next, if_neg hbackslash, if_neg hcontrol, h]
  rfl

/-- **A verbatim text is read back.** -/
theorem scan_clean {owed : List (ℕ × ℕ)} {p : CStr} (hclean : ∀ c ∈ p, Clean c)
    (hutf8 : utf8From owed p = true) (rest : CStr) :
    scan (.char owed) (p ++ '"' :: rest) = some (p, rest) := by
  induction p generalizing owed with
  | nil =>
    obtain rfl : owed = [] := List.isEmpty_iff.mp hutf8
    rfl
  | cons c p ih =>
    obtain ⟨hc, hp⟩ := List.forall_mem_cons.mp hclean
    obtain ⟨owed', howed, hrest⟩ := utf8From_cons_eq_true hutf8
    rw [List.cons_append, scan_next hc.1 (next_clean hc howed), ih hp hrest]
    rfl

theorem Verbatim.scan {p : CStr} (h : Verbatim p) (rest : CStr) :
    Json.scan (.char []) (p ++ '"' :: rest) = some (p, rest) :=
  scan_clean h.clean h.utf8 rest

/-! ### What else can be read back -/

/-- The bytes that a character still owes are above ASCII. -/
def Mode.High : Mode → Prop
  | .char owed => ∀ r ∈ owed, 0x80 ≤ r.1
  | _ => True

/-- By how much the string still to come falls short of the text still to come. -/
def Mode.debt : Mode → ℤ
  | .char _ | .escape => 0
  -- a `\u` is six bytes of text, and four at most of a string
  | .hex k _ _ => k - 4
  | .lowBackslash _ => 2
  | .lowU _ => 1

theorem length_utf8Bytes_le (n : ℕ) : (utf8Bytes n).length ≤ 4 := by
  unfold utf8Bytes
  split_ifs <;> simp

theorem high_continuation {c : Char} {owed : List (ℕ × ℕ)} (h : continuation c = some owed) :
    (Mode.char owed).High := by
  unfold continuation at h
  dsimp only at h
  split_ifs at h <;> obtain rfl := Option.some.inj h <;> simp [Mode.High]

theorem high_owedAfter {owed owed' : List (ℕ × ℕ)} {c : Char} (hm : (Mode.char owed).High)
    (h : owedAfter owed c = some owed') : (Mode.char owed').High := by
  cases owed with
  | nil => exact high_continuation h
  | cons r owed =>
    rw [owedAfter] at h
    split at h
    · obtain rfl := Option.some.inj h
      exact fun r hr => hm r (List.mem_cons_of_mem _ hr)
    · exact absurd h (by simp)

theorem le_toNat_of_owedAfter {r : ℕ × ℕ} {owed owed' : List (ℕ × ℕ)} {c : Char}
    (hm : (Mode.char (r :: owed)).High) (h : owedAfter (r :: owed) c = some owed') :
    0x80 ≤ c.toNat := by
  have hr : 0x80 ≤ r.1 := hm r List.mem_cons_self
  rw [owedAfter] at h
  split at h
  next hin => exact hr.trans hin.1
  next => exact absurd h (by simp)

/-- A byte that goes into a string as it stands is clean, unless it closes the string. -/
theorem clean_of_owedAfter {owed owed' : List (ℕ × ℕ)} {c : Char} (hm : (Mode.char owed).High)
    (h : owedAfter owed c = some owed') (hquote : ¬ (owed = [] ∧ c = '"'))
    (hother : ¬ (owed = [] ∧ (c = '\\' ∨ c.toNat < 0x20))) : Clean c := by
  cases owed with
  | nil =>
    refine ⟨fun hc => hquote ⟨rfl, hc⟩, fun hc => hother ⟨rfl, Or.inl hc⟩, ?_⟩
    exact Nat.not_lt.mp fun hc => hother ⟨rfl, Or.inr hc⟩
  | cons r owed =>
    have hhigh := le_toNat_of_owedAfter hm h
    refine ⟨?_, ?_, by omega⟩
    all_goals
      rintro rfl
      exact absurd hhigh (by decide)

/-- A digit pays for itself, and the last one for up to four bytes. -/
theorem afterDigit_debt {k n : ℕ} {high : Option ℕ} {bytes : CStr} {m : Mode}
    (h : afterDigit k n high = some (bytes, m)) :
    m.High ∧ bytes.length + ((k : ℤ) - 4) ≤ 1 + m.debt := by
  have hbytes := length_utf8Bytes_le
  unfold afterDigit at h
  split at h
  -- a digit that is not the last adds no byte
  next hk =>
    obtain ⟨rfl, rfl⟩ := Prod.mk.inj (Option.some.inj h)
    exact ⟨trivial, by simp only [Mode.debt, List.length_nil]; omega⟩
  next hk =>
    cases high with
    -- the last digit of a lone escape: its bytes, or the first half of a pair
    | none =>
      dsimp only at h
      split at h <;> [skip; split at h]
      · obtain ⟨rfl, rfl⟩ := Prod.mk.inj (Option.some.inj h)
        have := hbytes n
        exact ⟨by simp [Mode.High], by simp only [Mode.debt]; omega⟩
      · obtain ⟨rfl, rfl⟩ := Prod.mk.inj (Option.some.inj h)
        exact ⟨trivial, by simp only [Mode.debt, List.length_nil]; omega⟩
      · exact absurd h (by simp)
    -- the last digit of the second half: the bytes of the pair
    | some hi =>
      dsimp only at h
      split at h
      · obtain ⟨rfl, rfl⟩ := Prod.mk.inj (Option.some.inj h)
        have := hbytes (0x10000 + (hi - 0xd800) * 1024 + (n - 0xdc00))
        exact ⟨by simp [Mode.High], by simp only [Mode.debt]; omega⟩
      · exact absurd h (by simp)

/-- **What one byte can do.** A byte of the text adds at most one byte to the string, the
debts before and after it counted in. -/
theorem Mode.next_debt {m m' : Mode} {c : Char} {bytes : CStr} (hm : m.High)
    (h : m.next c = some (bytes, m')) : m'.High ∧ bytes.length + m.debt ≤ 1 + m'.debt := by
  cases m with
  | char owed =>
    rcases next_char_eq_some h with ⟨rfl, rfl⟩ | ⟨-, owed', howed, rfl, rfl⟩
    · exact ⟨trivial, by simp [Mode.debt]⟩
    · exact ⟨high_owedAfter hm howed, by simp [Mode.debt]⟩
  | escape =>
    rw [Mode.next] at h
    split at h
    · obtain ⟨rfl, rfl⟩ := Prod.mk.inj (Option.some.inj h)
      exact ⟨trivial, by decide⟩
    · obtain ⟨e, -, heq⟩ := Option.map_eq_some_iff.mp h
      obtain ⟨rfl, rfl⟩ := Prod.mk.inj heq
      exact ⟨by simp [Mode.High], by simp [Mode.debt]⟩
  | hex k n high =>
    obtain ⟨d, -, hd⟩ := Option.bind_eq_some_iff.mp h
    exact afterDigit_debt hd
  -- between the halves of a pair nothing is read off but the backslash and the u
  | lowBackslash high | lowU high =>
    rw [Mode.next] at h
    split at h
    · obtain ⟨rfl, rfl⟩ := Prod.mk.inj (Option.some.inj h)
      exact ⟨trivial, by simp [Mode.debt]⟩
    · exact absurd h (by simp)

/-- A quote ends no string but one that stands between two characters. -/
theorem scan_quote {tail : CStr} (htail : scan (.char []) tail = none) {m : Mode} {v r : CStr}
    (hm : m.High) (h : scan m ('"' :: tail) = some (v, r)) :
    m = .char [] ∧ v = [] ∧ r = tail := by
  rcases scan_cons_eq_some h with ⟨rfl, -, rfl, rfl⟩ | ⟨hopen, bytes, m', v', hnext, hscan, -⟩
  · exact ⟨rfl, rfl, rfl⟩
  · exfalso
    cases m with
    | char owed =>
      rcases next_char_eq_some hnext with ⟨-, rfl⟩ | ⟨-, owed', howed, -⟩
      · exact absurd hnext (by simp [Mode.next])
      · -- a quote goes on no character
        cases owed with
        | nil => exact hopen ⟨rfl, rfl⟩
        | cons r owed => exact absurd (le_toNat_of_owedAfter hm howed) (by decide)
    | escape =>
      -- the quote is taken into the string, and what follows does not end it
      obtain ⟨-, rfl⟩ := Prod.mk.inj (Option.some.inj hnext)
      exact absurd hscan (by rw [htail]; simp)
    | hex k n high => exact absurd hnext (by simp [Mode.next, show hexDigit '"' = none from rfl])
    | lowBackslash high | lowU high => exact absurd hnext (by simp [Mode.next])

/-- The string falls short of the text by the debt. -/
theorem scan_length_le {tail : CStr} (htail : scan (.char []) tail = none) {m : Mode}
    {p v r : CStr} (hm : m.High) (h : scan m (p ++ '"' :: tail) = some (v, r)) :
    v.length + m.debt ≤ p.length := by
  induction p generalizing m v with
  | nil =>
    obtain ⟨rfl, rfl, -⟩ := scan_quote htail hm h
    simp [Mode.debt]
  | cons c p ih =>
    rcases scan_cons_eq_some h with ⟨rfl, -, rfl, -⟩ | ⟨-, bytes, m', v', hnext, hscan, rfl⟩
    · simp only [Mode.debt, List.length_nil, List.length_cons]
      omega
    · obtain ⟨hm', hstep⟩ := Mode.next_debt hm hnext
      have hrest := ih hm' hscan
      rw [List.length_append, List.length_cons]
      omega

/-- **Nothing else is read back.** A text between two quotes is scanned to a shorter
string, or is verbatim. -/
theorem scan_shorter_or_verbatim {tail : CStr} (htail : scan (.char []) tail = none)
    {owed : List (ℕ × ℕ)} {p v r : CStr} (hm : (Mode.char owed).High)
    (h : scan (.char owed) (p ++ '"' :: tail) = some (v, r)) :
    v.length < p.length ∨ (r = tail ∧ (∀ c ∈ p, Clean c) ∧ utf8From owed p = true) := by
  induction p generalizing owed v with
  | nil =>
    obtain ⟨howed, -, hr⟩ := scan_quote htail hm h
    obtain rfl := Mode.char.inj howed
    exact Or.inr ⟨hr, by simp, rfl⟩
  | cons c p ih =>
    rcases scan_cons_eq_some h with ⟨-, -, rfl, -⟩ | ⟨hopen, bytes, m', v', hnext, hscan, rfl⟩
    · exact Or.inl (by simp)
    · rcases next_char_eq_some hnext with ⟨rfl, rfl⟩ | ⟨hother, owed', howed, rfl, rfl⟩
      · -- the backslash of an escape is missing in the string
        have hrest := scan_length_le htail (m := .escape) trivial hscan
        simp only [Mode.debt] at hrest
        exact Or.inl (by rw [List.nil_append, List.length_cons]; omega)
      · have hquote : ¬ (owed = [] ∧ c = '"') := fun h => hopen ⟨by rw [h.1], h.2⟩
        have hc : Clean c := clean_of_owedAfter hm howed hquote hother
        rcases ih (high_owedAfter hm howed) hscan with hlt | ⟨hr, hclean, hutf8⟩
        · exact Or.inl (by simpa using hlt)
        · exact Or.inr ⟨hr, List.forall_mem_cons.mpr ⟨hc, hclean⟩,
            (utf8From_cons howed p).trans hutf8⟩

/-- A text that is read back from between two quotes is verbatim. -/
theorem verbatim_of_scan {p tail r : CStr} (htail : scan (.char []) tail = none)
    (h : scan (.char []) (p ++ '"' :: tail) = some (p, r)) : Verbatim p ∧ r = tail := by
  rcases scan_shorter_or_verbatim htail (by simp [Mode.High]) h with hlt | ⟨hr, hclean, hutf8⟩
  · exact absurd hlt (lt_irrefl _)
  · exact ⟨⟨hclean, hutf8⟩, hr⟩

/-! ### ASCII -/

/-- A character of ASCII that a JSON string holds as it stands. -/
def Plain (c : Char) : Prop := Clean c ∧ c.toNat ≤ 0x7f

instance (c : Char) : Decidable (Plain c) := inferInstanceAs (Decidable (_ ∧ _))

/-- A character of ASCII owes nothing. -/
theorem Plain.owedAfter {c : Char} (hc : Plain c) : owedAfter [] c = some [] := if_pos hc.2

/-- Plain text in front is passed over. -/
theorem utf8From_plain {a : CStr} (ha : ∀ c ∈ a, Plain c) (p : CStr) :
    utf8From [] (a ++ p) = utf8From [] p := by
  induction a with
  | nil => rfl
  | cons c a ih =>
    obtain ⟨hc, ha⟩ := List.forall_mem_cons.mp ha
    rw [List.cons_append, utf8From_cons hc.owedAfter]
    exact ih ha

theorem Verbatim.plain_append {a p : CStr} (ha : ∀ c ∈ a, Plain c) (hp : Verbatim p) :
    Verbatim (a ++ p) where
  clean := List.forall_mem_append.mpr ⟨fun c hc => (ha c hc).1, hp.clean⟩
  utf8 := (utf8From_plain ha p).trans hp.utf8

theorem Verbatim.nil : Verbatim [] := ⟨by simp, rfl⟩

theorem Verbatim.of_plain {a : CStr} (ha : ∀ c ∈ a, Plain c) : Verbatim a := by
  have := Verbatim.plain_append ha .nil
  rwa [List.append_nil] at this

theorem plain_of_isDigit {c : Char} (h : c.isDigit = true) : Plain c := by
  have hrange : 48 ≤ c.toNat ∧ c.toNat ≤ 57 := by
    simp only [Char.isDigit, Bool.and_eq_true, decide_eq_true_eq] at h
    exact ⟨UInt32.le_iff_toNat_le.mp h.1, UInt32.le_iff_toNat_le.mp h.2⟩
  refine ⟨⟨?_, ?_, by omega⟩, by omega⟩
  all_goals
    rintro rfl
    exact absurd h (by decide)

/-- A printed number is plain. -/
theorem plain_fmtInt (n : ℤ) : ∀ c ∈ fmtInt n, Plain c := by
  have hdigits : ∀ c ∈ Nat.toDigits 10 n.natAbs, Plain c :=
    fun c hc => plain_of_isDigit (isDigit_of_mem_toDigits hc)
  unfold fmtInt
  split
  · exact List.forall_mem_cons.mpr ⟨by decide, hdigits⟩
  · exact hdigits

/-- A string does not go over the end of a line. -/
theorem scan_newline {a : CStr} (ha : ∀ c ∈ a, Plain c) (s : CStr) :
    scan (.char []) (a ++ '\n' :: s) = none := by
  induction a with
  | nil => rfl
  | cons c a ih =>
    obtain ⟨hc, ha⟩ := List.forall_mem_cons.mp ha
    rw [List.cons_append, scan_next hc.1.1 (next_clean hc.1 hc.owedAfter), ih ha]
    rfl

end Json
