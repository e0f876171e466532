import AstralHwmon.Guard.Numbers

/-!
# Command lines

What the option loop makes of `argv`. A `Setting` is one accepted option with the
text of its value, and the number the text denotes; a command line is a list of settings,
written out one after the other, and then what parsing comes to (`Ending`): the
end, an informational option, or something refused, for one of the three reasons
of `Refused`.

Every command line has exactly one such reading (`exists_reading`,
`reading_unique`): an argument that was taken for a value is not looked at again.
The loop folds the settings into the options (`optionLoop_settings`), and what the
fold leaves is, option by option, the value given last (`reflects_foldl`).
-/

open CText Fold

namespace Astral

/-! ### Settings -/

/-- The options that take a number. -/
inductive NumberOption
  | samples | interval | warnRatio | noteRatio
  deriving DecidableEq

namespace NumberOption

/-- The option as it is given. -/
def name : NumberOption → CStr
  | .samples => "--samples".toList
  | .interval => "--interval".toList
  | .warnRatio => "--warn-ratio".toList
  | .noteRatio => "--note-ratio".toList

/-- The smallest number it takes. -/
def lo : NumberOption → ℤ
  | .interval => 0
  | _ => 1

/-- The largest number it takes. -/
def hi : NumberOption → ℤ
  | .samples => guardMaxSamples
  | .interval => guardMaxIntervalMs
  | _ => 100

/-- What holds when it is not given. -/
def default : NumberOption → ℤ
  | .samples => guardDefaultSamples
  | .interval => 0
  | .warnRatio => guardLimitsDefault.ratioWarnPct
  | .noteRatio => guardLimitsDefault.ratioNotePct

end NumberOption

/-- An accepted option: a number comes with a text that denotes it. -/
inductive Setting
  | json
  | quiet
  | sysfsRoot (root : CStr)
  | number (n : NumberOption) (text : CStr) (v : Ranged n.lo n.hi) (denotes : Denotes text v)

/-- The arguments a setting is given by. -/
def Setting.tokens : Setting → List CStr
  | .json => ["--json".toList]
  | .quiet => ["--quiet".toList]
  | .sysfsRoot root => ["--sysfs-root".toList, root]
  | .number n text _ _ => [n.name, text]

/-- The number a setting gives to an option, if it is that option's. -/
def Setting.number? (n : NumberOption) : Setting → Option ℤ
  | .number m _ v _ => if m = n then some v.val else none
  | _ => none

/-- The root a setting gives, if it is `--sysfs-root`. -/
def Setting.sysfsRoot? : Setting → Option CStr
  | .sysfsRoot root => some root
  | _ => none

/-- The number an option has after a list of settings: the last one given. -/
def lastNumber (settings : List Setting) (n : NumberOption) : ℤ :=
  (settings.filterMap (Setting.number? n)).getLastD n.default

/-- The options that print something and end the program. -/
def Informational (a : CStr) : Prop :=
  a = "--version".toList ∨ a = "--help".toList ∨ a = "-h".toList

instance (a : CStr) : Decidable (Informational a) := inferInstanceAs (Decidable (_ ∨ _ ∨ _))

/-- The options that take a value. -/
def TakesValue (a : CStr) : Prop := a = "--sysfs-root".toList ∨ ∃ n : NumberOption, a = n.name

/-- Why parsing stops with a complaint. -/
inductive Refused : List CStr → Prop
  | unknown {a : CStr} (more : List CStr) (hflag : a ≠ "--json".toList ∧ a ≠ "--quiet".toList)
      (hinfo : ¬ Informational a) (hvalue : ¬ TakesValue a) : Refused (a :: more)
  | incomplete {a : CStr} (hvalue : TakesValue a) : Refused [a]
  | value (n : NumberOption) {text : CStr} (more : List CStr)
      (hno : ¬ ∃ v, DenotesIn n.lo n.hi text v) : Refused (n.name :: text :: more)

/-- What parsing comes to after the last setting. -/
def Ending (rest : List CStr) : Prop :=
  rest = [] ∨ (∃ a more, rest = a :: more ∧ Informational a) ∨ Refused rest

/-! ### One reading -/

theorem NumberOption.name_injective {m n : NumberOption} (h : m.name = n.name) : m = n := by
  cases m <;> cases n <;> first | rfl | exact absurd h (by decide)

/-- The range of a number option is one of `int`s, and far from the ends of a `long`. -/
theorem NumberOption.bounds (n : NumberOption) : longMin < n.lo ∧ n.hi < longMax := by
  cases n <;> decide

/-- The name of a number option is no other option's. -/
theorem NumberOption.name_ne (n : NumberOption) : n.name ≠ "--json".toList ∧
    n.name ≠ "--quiet".toList ∧ n.name ≠ "--sysfs-root".toList ∧ ¬ Informational n.name := by
  cases n <;> decide

theorem not_takesValue {a : CStr}
    (h : a = "--json".toList ∨ a = "--quiet".toList ∨ Informational a) : ¬ TakesValue a := by
  rintro (rfl | ⟨n, rfl⟩)
  · revert h
    decide
  · obtain ⟨hjson, hquiet, -, hinfo⟩ := n.name_ne
    rcases h with h | h | h
    exacts [hjson h, hquiet h, hinfo h]

/-- A setting's arguments say which setting it is. -/
theorem Setting.eq_of_tokens {s s' : Setting} {rest rest' : List CStr}
    (h : s.tokens ++ rest = s'.tokens ++ rest') : s = s' ∧ rest = rest' := by
  cases s with
  | json =>
    cases s' with
    | json => exact ⟨rfl, (List.cons.inj h).2⟩
    | quiet => exact absurd (List.cons.inj h).1 (by decide)
    | sysfsRoot => exact absurd (List.cons.inj h).1 (by decide)
    | number n => exact absurd (List.cons.inj h).1.symm n.name_ne.1
  | quiet =>
    cases s' with
    | json => exact absurd (List.cons.inj h).1 (by decide)
    | quiet => exact ⟨rfl, (List.cons.inj h).2⟩
    | sysfsRoot => exact absurd (List.cons.inj h).1 (by decide)
    | number n => exact absurd (List.cons.inj h).1.symm n.name_ne.2.1
  | sysfsRoot root =>
    cases s' with
    | json => exact absurd (List.cons.inj h).1 (by decide)
    | quiet => exact absurd (List.cons.inj h).1 (by decide)
    | sysfsRoot root' =>
      obtain ⟨rfl, rfl⟩ := List.cons.inj (List.cons.inj h).2
      exact ⟨rfl, rfl⟩
    | number n => exact absurd (List.cons.inj h).1.symm n.name_ne.2.2.1
  | number n text v hden =>
    cases s' with
    | json => exact absurd (List.cons.inj h).1 n.name_ne.1
    | quiet => exact absurd (List.cons.inj h).1 n.name_ne.2.1
    | sysfsRoot => exact absurd (List.cons.inj h).1 n.name_ne.2.2.1
    | number m text' v' hden' =>
      -- the same option with the same text, and a text denotes one number
      obtain rfl := NumberOption.name_injective (List.cons.inj h).1
      obtain ⟨rfl, rfl⟩ := List.cons.inj (List.cons.inj h).2
      obtain rfl := Subtype.ext (hden.unique hden')
      exact ⟨rfl, rfl⟩

theorem Refused.inv {a : CStr} {more : List CStr} (h : Refused (a :: more)) :
    ((a ≠ "--json".toList ∧ a ≠ "--quiet".toList) ∧ ¬ TakesValue a) ∨ (TakesValue a ∧ more = []) ∨
      ∃ (n : NumberOption) (text : CStr) (tail : List CStr), a = n.name ∧ more = text :: tail ∧
        ¬ ∃ v, DenotesIn n.lo n.hi text v := by
  cases h with
  | unknown _ hflag _ hvalue => exact Or.inl ⟨hflag, hvalue⟩
  | incomplete hvalue => exact Or.inr (Or.inl ⟨hvalue, rfl⟩)
  | value n _ hno => exact Or.inr (Or.inr ⟨n, _, _, rfl, rfl, hno⟩)

/-- Parsing does not stop before a setting. -/
theorem Setting.not_ending (s : Setting) (rest : List CStr) : ¬ Ending (s.tokens ++ rest) := by
  rintro (h | ⟨a, more, h, hinfo⟩ | h)
  · cases s <;> exact List.cons_ne_nil _ _ h
  · cases s with
    | number n =>
      obtain ⟨rfl, -⟩ := List.cons.inj h
      exact n.name_ne.2.2.2 hinfo
    | _ =>
      obtain ⟨rfl, -⟩ := List.cons.inj h
      exact absurd hinfo (by decide)
  · cases s with
    | json =>
      rcases Refused.inv h with ⟨hflag, -⟩ | ⟨hvalue, -⟩ | ⟨n, -, -, hname, -⟩
      exacts [hflag.1 rfl, not_takesValue (Or.inl rfl) hvalue, n.name_ne.1 hname.symm]
    | quiet =>
      rcases Refused.inv h with ⟨hflag, -⟩ | ⟨hvalue, -⟩ | ⟨n, -, -, hname, -⟩
      exacts [hflag.2 rfl, not_takesValue (Or.inr (Or.inl rfl)) hvalue, n.name_ne.2.1 hname.symm]
    | sysfsRoot root =>
      rcases Refused.inv h with ⟨-, hvalue⟩ | ⟨-, hnil⟩ | ⟨n, -, -, hname, -⟩
      exacts [hvalue (Or.inl rfl), List.cons_ne_nil _ _ hnil, n.name_ne.2.2.1 hname.symm]
    | number n text v hden =>
      rcases Refused.inv h with ⟨-, hvalue⟩ | ⟨-, hnil⟩ | ⟨m, _, _, hname, hmore, hno⟩
      · exact hvalue (Or.inr ⟨n, rfl⟩)
      · exact List.cons_ne_nil _ _ hnil
      · -- the text denotes a number within the same bounds
        obtain rfl := NumberOption.name_injective hname
        obtain ⟨rfl, -⟩ := List.cons.inj hmore
        exact hno ⟨v, v.property.1, v.property.2, hden⟩

/-- Either a setting comes next, or parsing stops. -/
theorem setting_or_ending (args : List CStr) :
    (∃ (s : Setting) (rest : List CStr), args = s.tokens ++ rest) ∨ Ending args := by
  cases args with
  | nil => exact Or.inr (Or.inl rfl)
  | cons a more =>
    -- in the order of the loop, except that a number is asked what it denotes
    by_cases hjson : a = "--json".toList
    · exact Or.inl ⟨.json, more, by rw [hjson]; rfl⟩
    by_cases hquiet : a = "--quiet".toList
    · exact Or.inl ⟨.quiet, more, by rw [hquiet]; rfl⟩
    by_cases hinfo : Informational a
    · exact Or.inr (Or.inr (Or.inl ⟨a, more, rfl, hinfo⟩))
    by_cases hvalue : TakesValue a
    · cases more with
      | nil => exact Or.inr (Or.inr (Or.inr (.incomplete hvalue)))
      | cons text more =>
        rcases hvalue with rfl | ⟨n, rfl⟩
        · exact Or.inl ⟨.sysfsRoot text, more, rfl⟩
        · by_cases hden : ∃ v, DenotesIn n.lo n.hi text v
          · obtain ⟨v, hlo, hhi, hden⟩ := hden
            exact Or.inl ⟨.number n text ⟨v, hlo, hhi⟩ hden, more, rfl⟩
          · exact Or.inr (Or.inr (Or.inr (.value n more hden)))
    · exact Or.inr (Or.inr (Or.inr (.unknown more ⟨hjson, hquiet⟩ hinfo hvalue)))

theorem Setting.tokens_length_pos (s : Setting) : 0 < s.tokens.length := by
  cases s <;> exact Nat.zero_lt_succ _

/-- Every command line has a reading. -/
theorem exists_reading (args : List CStr) :
    ∃ (settings : List Setting) (rest : List CStr),
      args = settings.flatMap Setting.tokens ++ rest ∧ Ending rest := by
  -- on the length: a setting is one argument or two
  induction hn : args.length using Nat.strong_induction_on generalizing args with
  | _ n ih =>
    rcases setting_or_ending args with ⟨s, more, rfl⟩ | hend
    · have hshort : more.length < n := by
        have := s.tokens_length_pos
        rw [List.length_append] at hn
        omega
      obtain ⟨settings, rest, hmore, hend⟩ := ih _ hshort more rfl
      exact ⟨s :: settings, rest, by rw [List.flatMap_cons, List.append_assoc, ← hmore], hend⟩
    · exact ⟨[], args, rfl, hend⟩

/-- And only one: no argument is read twice, or in two ways. -/
theorem reading_unique {settings settings' : List Setting} {rest rest' : List CStr}
    (h : settings.flatMap Setting.tokens ++ rest = settings'.flatMap Setting.tokens ++ rest')
    (hend : Ending rest) (hend' : Ending rest') : settings = settings' ∧ rest = rest' := by
  -- on the settings: what is no ending begins a setting, and only one
  induction settings generalizing settings' with
  | nil =>
    cases settings' with
    | nil => exact ⟨rfl, h⟩
    | cons s' settings' =>
      rw [List.flatMap_nil, List.nil_append, List.flatMap_cons, List.append_assoc] at h
      exact absurd (h ▸ hend) (s'.not_ending _)
  | cons s settings ih =>
    cases settings' with
    | nil =>
      rw [List.flatMap_nil, List.nil_append, List.flatMap_cons, List.append_assoc] at h
      exact absurd (h ▸ hend') (s.not_ending _)
    | cons s' settings' =>
      rw [List.flatMap_cons, List.flatMap_cons, List.append_assoc, List.append_assoc] at h
      obtain ⟨rfl, hmore⟩ := Setting.eq_of_tokens h
      obtain ⟨rfl, hrest⟩ := ih hmore
      exact ⟨rfl, hrest⟩

/-! ### The option loop -/

/-- What a number does to the options. -/
def Options.setNumber (o : Options) : (n : NumberOption) → Ranged n.lo n.hi → Options
  | .samples, v => { o with samples := v }
  | .interval, v => { o with interval := v }
  | .warnRatio, v => o.setWarnRatio v
  | .noteRatio, v => o.setNoteRatio v

/-- What a setting does to the options. -/
def Options.set (o : Options) : Setting → Options
  | .json => { o with json := true }
  | .quiet => { o with quiet := true }
  | .sysfsRoot root => { o with sysfsRoot := root }
  | .number n _ v _ => o.setNumber n v

/-- A number option stands or falls with its value. -/
theorem optionLoop_number (version : CStr) (n : NumberOption) {text : CStr}
    {r : Except CStr (Ranged n.lo n.hi)} (hr : parseInt text n.lo n.hi n.name = r)
    (more : List CStr) (o : Options) : optionLoop version (n.name :: text :: more) o =
      match r with
      | .error e => .exit ⟨.unknown, [], e⟩
      | .ok v => optionLoop version more (o.setNumber n v) := by
  obtain ⟨hjson, hquiet, hroot, hinfo⟩ := n.name_ne
  simp only [Informational, not_or] at hinfo
  rw [optionLoop.eq_def]
  dsimp only
  rw [if_neg hjson, if_neg hquiet, if_neg hinfo.1, if_neg (not_or.mpr hinfo.2)]
  -- the loop comes to the option's own branch, which asks for the same parse
  cases n with
  | samples =>
    have hr : parseInt text 1 guardMaxSamples NumberOption.samples.name = r := hr
    refine (if_pos rfl).trans ?_
    rw [hr]
    cases r <;> rfl
  | interval =>
    have hr : parseInt text 0 guardMaxIntervalMs NumberOption.interval.name = r := hr
    refine (if_neg (by decide)).trans ((if_pos rfl).trans ?_)
    rw [hr]
    cases r <;> rfl
  | warnRatio =>
    have hr : parseInt text 1 100 NumberOption.warnRatio.name = r := hr
    refine (if_neg (by decide)).trans ((if_neg (by decide)).trans ((if_neg hroot).trans
      ((if_pos rfl).trans ?_)))
    rw [hr]
    cases r <;> rfl
  | noteRatio =>
    have hr : parseInt text 1 100 NumberOption.noteRatio.name = r := hr
    refine (if_neg (by decide)).trans ((if_neg (by decide)).trans ((if_neg hroot).trans
      ((if_neg (by decide)).trans ((if_pos rfl).trans ?_))))
    rw [hr]
    cases r <;> rfl

/-- A setting is consumed with its value. -/
theorem optionLoop_setting (version : CStr) (s : Setting) (args : List CStr) (o : Options) :
    optionLoop version (s.tokens ++ args) o = optionLoop version args (o.set s) := by
  cases s with
  | json => rw [Setting.tokens, List.singleton_append, optionLoop.eq_def]; exact if_pos rfl
  | quiet =>
    rw [Setting.tokens, List.singleton_append, optionLoop.eq_def]
    exact (if_neg (by decide)).trans (if_pos rfl)
  | sysfsRoot root =>
    simp +decide only [Setting.tokens, List.cons_append, List.nil_append, optionLoop, reduceIte,
      Options.set]
  | number n text v hden =>
    have hok : parseInt text n.lo n.hi n.name = .ok v := by
      rw [parseInt, (parseRanged_eq_some_iff n.bounds.1 n.bounds.2).mpr hden]
    exact optionLoop_number version n hok args o

theorem optionLoop_settings (version : CStr) (settings : List Setting) (rest : List CStr)
    (o : Options) : optionLoop version (settings.flatMap Setting.tokens ++ rest) o
      = optionLoop version rest (settings.foldl Options.set o) := by
  induction settings generalizing o with
  | nil => rfl
  | cons s settings ih =>
    rw [List.flatMap_cons, List.append_assoc, optionLoop_setting, ih, List.foldl_cons]

/-- An informational option ends the program well. -/
theorem optionLoop_informational (version : CStr) {a : CStr} (h : Informational a)
    (more : List CStr) (o : Options) :
    ∃ text, optionLoop version (a :: more) o = .exit ⟨.ok, text, []⟩ := by
  rw [optionLoop.eq_def]
  dsimp only
  rcases h with rfl | rfl | rfl
  · exact ⟨_, by simp +decide only [reduceIte]; rfl⟩
  · exact ⟨_, by simp +decide only [reduceIte]; rfl⟩
  · exact ⟨_, by simp +decide only [reduceIte]; rfl⟩

/-- A complaint about a value is a text. -/
theorem parseIntError_ne_nil (what : CStr) (lo hi : ℤ) (s : CStr) :
    parseIntError what lo hi s ≠ [] := by
  simp [parseIntError]

/-- Whatever is refused ends the program as UNKNOWN, with a complaint. -/
theorem optionLoop_refused (version : CStr) {rest : List CStr} (h : Refused rest) (o : Options) :
    ∃ text, text ≠ [] ∧ optionLoop version rest o = .exit ⟨.unknown, [], text⟩ := by
  have hrefuse : ∀ a, ∃ text, text ≠ [] ∧ refuseOption a = .exit ⟨.unknown, [], text⟩ :=
    fun a => ⟨_, by simp, rfl⟩
  cases h with
  | @unknown a more hflag hinfo hvalue =>
    have hname : ∀ n : NumberOption, a ≠ n.name := fun n h => hvalue (Or.inr ⟨n, h⟩)
    have hroot : a ≠ "--sysfs-root".toList := fun h => hvalue (Or.inl h)
    simp only [Informational, not_or] at hinfo
    rw [optionLoop.eq_def]
    dsimp only
    rw [if_neg hflag.1, if_neg hflag.2, if_neg hinfo.1, if_neg (not_or.mpr hinfo.2)]
    -- with an argument behind it the loop also asks for the options that take a value
    cases more with
    | nil => exact hrefuse a
    | cons text more =>
      dsimp only
      have hsamples : a ≠ "--samples".toList := hname .samples
      have hinterval : a ≠ "--interval".toList := hname .interval
      have hwarn : a ≠ "--warn-ratio".toList := hname .warnRatio
      have hnote : a ≠ "--note-ratio".toList := hname .noteRatio
      rw [if_neg hsamples, if_neg hinterval, if_neg hroot, if_neg hwarn, if_neg hnote]
      exact hrefuse a
  | @incomplete a hvalue =>
    -- it takes a value, so it is none of the others
    obtain ⟨hjson, hquiet, hinfo⟩ : a ≠ "--json".toList ∧ a ≠ "--quiet".toList ∧
        ¬ Informational a :=
      ⟨fun h => not_takesValue (Or.inl h) hvalue,
        fun h => not_takesValue (Or.inr (Or.inl h)) hvalue,
        fun h => not_takesValue (Or.inr (Or.inr h)) hvalue⟩
    simp only [Informational, not_or] at hinfo
    rw [optionLoop.eq_def]
    dsimp only
    rw [if_neg hjson, if_neg hquiet, if_neg hinfo.1, if_neg (not_or.mpr hinfo.2)]
    exact hrefuse a
  | @value n text more hno =>
    have herror : parseInt text n.lo n.hi n.name =
        .error (parseIntError n.name n.lo n.hi text) := by
      rw [parseInt, (parseRanged_eq_none_iff n.bounds.1 n.bounds.2).mpr hno]
    exact ⟨_, parseIntError_ne_nil n.name n.lo n.hi text, optionLoop_number version n herror more o⟩

/-! ### What the options hold -/

/-- The number the options hold for an option. -/
def Options.number (o : Options) : NumberOption → ℤ
  | .samples => o.samples
  | .interval => o.interval
  | .warnRatio => o.lim.ratioWarnPct
  | .noteRatio => o.lim.ratioNotePct

/-- The options say what a list of settings says: for each, what was given last,
or its default; and no other limit is touched. -/
structure Options.Reflects (o : Options) (settings : List Setting) : Prop where
  json : o.json = true ↔ .json ∈ settings
  quiet : o.quiet = true ↔ .quiet ∈ settings
  sysfsRoot : o.sysfsRoot = (settings.filterMap Setting.sysfsRoot?).getLastD "/sys".toList
  number : ∀ n, o.number n = lastNumber settings n
  lim : o.lim = { guardLimitsDefault with
    ratioWarnPct := o.number .warnRatio
    ratioNotePct := o.number .noteRatio }

theorem overwrites_number (n : NumberOption) :
    Overwrites Options.set (Options.number · n) (Setting.number? n) := by
  intro o s
  cases s with
  | number m => cases m <;> cases n <;> rfl
  | _ => cases n <;> rfl

theorem overwrites_sysfsRoot : Overwrites Options.set Options.sysfsRoot Setting.sysfsRoot? := by
  intro o s
  cases s with
  | number m => cases m <;> rfl
  | _ => rfl

theorem Options.set_json (o : Options) (s : Setting) :
    (o.set s).json = true ↔ o.json = true ∨ s = .json := by
  cases s with
  | number m => cases m <;> simp [set, setNumber, setWarnRatio, setNoteRatio]
  | _ => simp [set]

theorem Options.set_quiet (o : Options) (s : Setting) :
    (o.set s).quiet = true ↔ o.quiet = true ∨ s = .quiet := by
  cases s with
  | number m => cases m <;> simp [set, setNumber, setWarnRatio, setNoteRatio]
  | _ => simp [set]

/-- The loop leaves what the settings say. -/
theorem reflects_foldl (settings : List Setting) :
    (settings.foldl Options.set .default).Reflects settings where
  json := by simp [foldl_flag Options.set_json, Options.default]
  quiet := by simp [foldl_flag Options.set_quiet, Options.default]
  sysfsRoot := overwrites_sysfsRoot.foldl settings .default
  number n := by
    rw [(overwrites_number n).foldl, lastNumber]
    cases n <;> rfl
  -- the rest of the limits is part of what it is to be tuned
  lim := (settings.foldl Options.set .default).lim_tuned.2.2

/-! ### Whole command lines -/

/-- The command line alone ends the program, with this exit code: whatever the
machine, nothing on it is asked for. -/
def EndsUnread (version : CStr) (argv : List CStr) (code : ℤ) : Prop :=
  ∃ out : Outcome, out.exitCode = code ∧
    ∀ (W : Type) (host : Host W) (w : W), guardMain version host argv w = some (out, w)

/-- The command line sets the program going with these options. -/
def RunsWith (version : CStr) (argv : List CStr) (o : Options) : Prop :=
  ∀ (W : Type) (host : Host W) (w : W), guardMain version host argv w = guardMonitor host o w

/-- **No command line disarms a rule.** Every command line has one reading, a list
of settings and what parsing then comes to. It ends the program before anything is
read, with 3 at something refused and with 0 at an informational option; or the
program runs with exactly the settings given, the last of each, within their
bounds, and every other limit at its default. -/
theorem guardMain_commandLine (version : CStr) (argv : List CStr) :
    ∃ (settings : List Setting) (rest : List CStr),
      argv.tail = settings.flatMap Setting.tokens ++ rest ∧ Ending rest ∧
      (∀ (settings' : List Setting) (rest' : List CStr),
        argv.tail = settings'.flatMap Setting.tokens ++ rest' → Ending rest' →
          settings' = settings ∧ rest' = rest) ∧
      (Refused rest → EndsUnread version argv 3) ∧
      (∀ a more, rest = a :: more → Informational a → EndsUnread version argv 0) ∧
      (rest = [] → ∃ o : Options, RunsWith version argv o ∧ o.Reflects settings ∧
        (1 ≤ o.samples.val ∧ o.samples.val ≤ 32) ∧
        (0 ≤ o.interval.val ∧ o.interval.val ≤ 3600000) ∧
        (1 ≤ o.lim.ratioWarnPct ∧ o.lim.ratioWarnPct ≤ 100) ∧
        (1 ≤ o.lim.ratioNotePct ∧ o.lim.ratioNotePct ≤ 100)) := by
  obtain ⟨settings, rest, hargs, hend⟩ := exists_reading argv.tail
  -- the loop comes to the ending with the settings folded in
  have hloop : optionLoop version argv.tail .default
      = optionLoop version rest (settings.foldl Options.set .default) := by
    rw [hargs, optionLoop_settings]
  -- the one reading, what is refused, what informs, and what runs
  refine ⟨settings, rest, hargs, hend, fun settings' rest' hargs' hend' => ?_, fun hrefused => ?_,
    fun a more hrest hinfo => ?_, fun hrest => ?_⟩
  · exact reading_unique (hargs' ▸ hargs) hend' hend
  · obtain ⟨text, -, hexit⟩ := optionLoop_refused version hrefused
      (settings.foldl Options.set .default)
    exact ⟨_, rfl, fun W host w => by rw [guardMain, hloop, hexit]⟩
  · obtain ⟨text, hexit⟩ := optionLoop_informational version hinfo more
      (settings.foldl Options.set .default)
    exact ⟨_, rfl, fun W host w => by rw [guardMain, hloop, hrest, hexit]⟩
  · let o := settings.foldl Options.set .default
    exact ⟨o, fun W host w => by rw [guardMain, hloop, hrest]; rfl, reflects_foldl settings,
      o.samples.property, o.interval.property, o.lim_tuned.1, o.lim_tuned.2.1⟩

end Astral
