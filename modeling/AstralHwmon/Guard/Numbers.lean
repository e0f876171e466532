import AstralHwmon.Guard.Main

/-!
# The two number parsers

A number comes to the guard on its command line, through `parse_int`, or in an
attribute, through `read_int_attr`. Both are to take a text that denotes a number
in range and to refuse every other, leaving what they were to write alone
(`TakesNumbers`).

The test they make of a text is the same and it is right (`parseRanged_eq_some_iff`):
saturation cannot bring a number into a range of `int`s. What differs is the text
they make it of. An attribute is read into 32 bytes, so its reader sees the first
31 characters of the line (`readIntAttr_line`), and `parsers_takeNumbers` says for
which texts that is as good as all of them.
-/

open CText

namespace Astral

/-- How both parsers hand back their result: 0 and the value in `*out`, or -1 and
`*out` as it was. -/
def outParam {lo hi : ℤ} (r : Option (Ranged lo hi)) (out : ℤ) : ℤ × ℤ :=
  match r with
  | none => (-1, out)
  | some v => (0, v)

/-- A parser takes a text: the value and 0 if the text denotes a number in range,
and otherwise -1 and nothing written. -/
def TakesNumbers (lo hi : ℤ) (s : CStr) (call : ℤ → ℤ × ℤ) : Prop :=
  ∀ out, (∀ n, lo ≤ n → n ≤ hi → Denotes s n → call out = (0, n)) ∧
    ((¬ ∃ n, lo ≤ n ∧ n ≤ hi ∧ Denotes s n) → call out = (-1, out))

/-- A text denotes a number of a range. -/
def DenotesIn (lo hi : ℤ) (s : CStr) (n : ℤ) : Prop := lo ≤ n ∧ n ≤ hi ∧ Denotes s n

section Range

variable {lo hi : ℤ}

/-- **What the test of a text admits.** Within the range of a `long`, it is the
texts that denote a number in bounds, each as its number. -/
theorem parseRanged_eq_some_iff (hlo : longMin < lo) (hhi : hi < longMax) {s : CStr}
    {v : Ranged lo hi} : parseRanged s lo hi = some v ↔ Denotes s v := by
  obtain ⟨v, hv⟩ := v
  unfold parseRanged
  constructor
  · intro h
    dsimp only at h
    split at h
    next => exact absurd h (by simp)
    next hok =>
      simp only [not_or, not_not] at hok
      obtain ⟨n, hn⟩ := denotes_of_strtol hok.2.1 hok.1
      have hvalue := congrArg Prod.fst (strtol_of_denotes hn)
      have hstrtol : (strtol s).1 = v := congrArg Subtype.val (Option.some.inj h)
      -- a saturated value would lie outside the range
      obtain rfl : n = v := by rw [hstrtol] at hvalue; dsimp only at hvalue; omega
      exact hn
  · intro h
    have hparse := strtol_of_denotes h
    have hvalue : max longMin (min longMax v) = v := by omega
    dsimp only at hparse hvalue
    rw [hvalue] at hparse
    have hok :
        ¬ ((strtol s).2 = s ∨ (strtol s).2 ≠ [] ∨ (strtol s).1 < lo ∨ (strtol s).1 > hi) := by
      rw [hparse]
      simp only [ne_eq, not_true_eq_false, false_or, not_or, not_lt]
      exact ⟨h.ne_nil.symm, hv⟩
    rw [dif_neg hok]
    simp only [hparse]

/-- And what it refuses is every other text. -/
theorem parseRanged_eq_none_iff (hlo : longMin < lo) (hhi : hi < longMax) {s : CStr} :
    parseRanged s lo hi = none ↔ ¬ ∃ n, DenotesIn lo hi s n := by
  rw [Option.eq_none_iff_forall_not_mem]
  constructor
  · rintro hnone ⟨n, hn, hn', hden⟩
    exact hnone ⟨n, hn, hn'⟩ ((parseRanged_eq_some_iff hlo hhi).mpr hden)
  · intro hno v hv
    exact hno ⟨v, v.property.1, v.property.2, (parseRanged_eq_some_iff hlo hhi).mp hv⟩

/-- A parser that makes the test of a text takes that text. -/
theorem takesNumbers_parseRanged (hlo : longMin < lo) (hhi : hi < longMax) (s : CStr) :
    TakesNumbers lo hi s (outParam (parseRanged s lo hi)) := by
  refine fun out => ⟨fun n hn hn' hden => ?_, fun hno => ?_⟩
  · have hparse : parseRanged s lo hi = some ⟨n, hn, hn'⟩ :=
      (parseRanged_eq_some_iff hlo hhi).mpr hden
    rw [hparse]
    rfl
  · rw [(parseRanged_eq_none_iff hlo hhi).mpr hno]
    rfl

end Range

section Calls

variable {lo hi : ℤ} {s : CStr}

/-- `parse_int`, with the `int` it writes to. -/
def parseIntCall (s : CStr) (lo hi : ℤ) (what : CStr) : ℤ → ℤ × ℤ :=
  outParam (parseInt s lo hi what).toOption

/-- `read_int_attr`, with the `int` it writes to. -/
def readIntAttrCall {W : Type*} (host : Host W) (dir attr : CStr) (lo hi : ℤ) (w : W) :
    ℤ → ℤ × ℤ :=
  outParam (readIntAttr host dir attr lo hi w).1

theorem parseInt_toOption (s : CStr) (lo hi : ℤ) (what : CStr) :
    (parseInt s lo hi what).toOption = parseRanged s lo hi := by
  unfold parseInt
  cases parseRanged s lo hi <;> rfl

/-- A buffer of 32 bytes holds 31 characters of the line. -/
theorem readIntAttr_line {W : Type*} {host : Host W} {dir attr : CStr} {w w' : W}
    (hfile : host.readFile (snprintf (3072 + 64) (dir ++ '/' :: attr)) w = (some (s ++ ['\n']), w'))
    (hnl : '\n' ∉ s) (hnul : '\x00' ∉ s) (lo hi : ℤ) :
    (readIntAttr host dir attr lo hi w).1 = parseRanged (s.take 31) lo hi := by
  simp only [readIntAttr, readAttr, hfile, Option.bind_some,
    fgets_chomp_cut hnl hnul (show 1 < 32 by decide)]

/-- What a call says of the text it takes. -/
theorem TakesNumbers.denotesIn_iff {call : ℤ → ℤ × ℤ} (h : TakesNumbers lo hi s call) {n : ℤ} :
    DenotesIn lo hi s n ↔ call 0 = (0, n) := by
  refine ⟨fun hden => (h 0).1 n hden.1 hden.2.1 hden.2.2, fun hcall => ?_⟩
  by_cases hex : ∃ m, DenotesIn lo hi s m
  · obtain ⟨m, hm⟩ := hex
    have hcall' := (h 0).1 m hm.1 hm.2.1 hm.2.2
    obtain rfl : n = m := (Prod.mk.inj (hcall.symm.trans hcall')).2
    exact hm
  · have hcall' : call 0 = (-1, 0) := (h 0).2 hex
    exact absurd (Prod.mk.inj (hcall.symm.trans hcall')).1 (by decide)

/-- A call that takes one text takes another exactly when they denote the same in
range. -/
theorem takesNumbers_iff_of {t : CStr} {call : ℤ → ℤ × ℤ} (ht : TakesNumbers lo hi t call) :
    TakesNumbers lo hi s call ↔ ∀ n, DenotesIn lo hi s n ↔ DenotesIn lo hi t n := by
  refine ⟨fun hs n => hs.denotesIn_iff.trans ht.denotesIn_iff.symm, fun hsame out => ?_⟩
  refine ⟨fun n hn hn' hden => ?_, fun hno => (ht out).2 fun ⟨m, hm⟩ => hno ⟨m, (hsame m).mpr hm⟩⟩
  obtain ⟨h, h', hden'⟩ := (hsame n).mp ⟨hn, hn', hden⟩
  exact (ht out).1 n h h' hden'

/-- Nothing of the text that matters lies beyond its first 31 characters: there is
nothing there, or the text and its beginning both denote no number in range, or
both denote 0. -/
def FitsLine (lo hi : ℤ) (s : CStr) : Prop :=
  s.length ≤ 31 ∨ (∀ n, ¬ DenotesIn lo hi s n ∧ ¬ DenotesIn lo hi (s.take 31) n) ∨
    (DenotesIn lo hi s 0 ∧ DenotesIn lo hi (s.take 31) 0)

theorem fitsLine_iff :
    FitsLine lo hi s ↔ ∀ n, DenotesIn lo hi s n ↔ DenotesIn lo hi (s.take 31) n := by
  constructor
  · rintro (hshort | hnone | ⟨hzero, hzero'⟩) n
    · rw [List.take_of_length_le hshort]
    · exact iff_of_false (hnone n).1 (hnone n).2
    · -- a text denotes one number
      exact ⟨fun h => by rwa [h.2.2.unique hzero.2.2], fun h => by rwa [h.2.2.unique hzero'.2.2]⟩
  · intro hsame
    by_cases hshort : s.length ≤ 31
    · exact Or.inl hshort
    by_cases hex : ∃ n, DenotesIn lo hi s n
    · obtain ⟨n, hn⟩ := hex
      have hn' := (hsame n).mp hn
      -- the same number with digits to spare is zero
      have hrest : s.drop 31 ≠ [] := by rw [Ne, List.drop_eq_nil_iff]; omega
      have hall : Denotes (s.take 31 ++ s.drop 31) n := by
        rw [List.take_append_drop]
        exact hn.2.2
      obtain rfl := hn'.2.2.eq_zero_of_append hall hrest
      exact Or.inr (Or.inr ⟨hn, hn'⟩)
    · exact Or.inr (Or.inl fun n => ⟨fun h => hex ⟨n, h⟩, fun h => hex ⟨n, (hsame n).mpr h⟩⟩)

/-- **A text is a number or it is refused.** For every text and every range of
`int`s, `parse_int` takes the text; and an attribute that holds it as its line is
taken in the same way exactly when nothing that matters lies beyond the reader's
buffer. -/
theorem parsers_takeNumbers (hlo : -2147483648 ≤ lo) (hhi : hi ≤ 2147483647)
    (hnl : '\n' ∉ s) (hnul : '\x00' ∉ s) {W : Type*} {host : Host W} {dir attr : CStr} {w w' : W}
    (hfile : host.readFile (snprintf (3072 + 64) (dir ++ '/' :: attr)) w = (some (s ++ ['\n']), w'))
    (what : CStr) :
    (TakesNumbers lo hi s (parseIntCall s lo hi what) ∧
      TakesNumbers lo hi s (readIntAttrCall host dir attr lo hi w)) ↔ FitsLine lo hi s := by
  have hlo' : longMin < lo := lt_of_lt_of_le (by decide) hlo
  have hhi' : hi < longMax := lt_of_le_of_lt hhi (by decide)
  have hint : TakesNumbers lo hi s (parseIntCall s lo hi what) := by
    rw [parseIntCall, parseInt_toOption]
    exact takesNumbers_parseRanged hlo' hhi' s
  have hcut : TakesNumbers lo hi (s.take 31) (readIntAttrCall host dir attr lo hi w) := by
    rw [readIntAttrCall, readIntAttr_line hfile hnl hnul]
    exact takesNumbers_parseRanged hlo' hhi' (s.take 31)
  rw [and_iff_right hint, takesNumbers_iff_of hcut, fitsLine_iff]

/-- A machine whose every attribute holds one line. -/
def lineHost (s : CStr) : Host Unit where
  readDir _ w := (none, w)
  readFile _ w := (some (s ++ ['\n']), w)
  nanosleep _ w := w

/-- A reading as the driver prints it fits. -/
theorem parsers_takeNumbers_reading :
    TakesNumbers 0 guardMaMax "8000".toList (parseIntCall "8000".toList 0 guardMaMax []) ∧
      TakesNumbers 0 guardMaMax "8000".toList
        (readIntAttrCall (lineHost "8000".toList) [] "curr1_input".toList 0 guardMaMax ()) :=
  (parsers_takeNumbers (by decide) (by decide) (by decide) (by decide) rfl []).mpr
    (Or.inl (by decide))

/-- An 80000 behind 27 blanks: the last digit is cut off, and 8000 is a healthy
current. -/
def paddedReading : CStr := List.replicate 27 ' ' ++ "80000".toList

/-- `parse_int` refuses the text for what it is, and `read_int_attr` takes it. -/
theorem parsers_takeNumbers_padded :
    parseIntCall paddedReading 0 guardMaMax [] 7 = (-1, 7) ∧
      readIntAttrCall (lineHost paddedReading) [] "curr1_input".toList 0 guardMaMax () 7
        = (0, 8000) ∧
      ¬ TakesNumbers 0 guardMaMax paddedReading
        (readIntAttrCall (lineHost paddedReading) [] "curr1_input".toList 0 guardMaMax ()) := by
  have hread : readIntAttrCall (lineHost paddedReading) [] "curr1_input".toList 0 guardMaMax () 7
      = (0, 8000) := by decide +kernel
  refine ⟨by decide +kernel, hread, fun h => ?_⟩
  have hden : ¬ ∃ n, 0 ≤ n ∧ n ≤ guardMaMax ∧ Denotes paddedReading n := by
    rintro ⟨n, -, hle, hn⟩
    -- it denotes 80000
    have hvalue := (denotes_iff.mp hn).2.2
    have hsigned :
        signedValue (signedRest paddedReading).1 (signedRest paddedReading).2 = 80000 := by
      decide +kernel
    rw [hvalue, hsigned] at hle
    exact absurd hle (by decide)
  have hrefused := (h 7).2 hden
  rw [hread] at hrefused
  exact absurd (Prod.mk.inj hrefused).1 (by decide)

end Calls

end Astral
