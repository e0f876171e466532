import AstralHwmon.Guard.Main

/-!
# Discovery

What `guard_find_chips` makes of a directory that does not change while it is
read. `findLoop_static` says what the loop collects: the chips at the matching
entries, in the order `readdir` gives them, until there is no room. The sort comes
after that, so it can put in order what was collected, and not what was not.

With room for every match, the list is the same for every order of the entries
(`insertionSort_byPath_perm`), and `guardFindChips_discovers` says that this is
the only case: five matching entries make it depend on the order which of them is
left out, and one always is.
-/

open CText

namespace Astral

/-! ### A directory at rest -/

section Static

variable {W : Type*}

/-- Every read of a file gives what is in it. -/
def Host.Static (host : Host W) (files : CStr → Option CStr) : Prop :=
  ∀ path w, (host.readFile path w).1 = files path

/-- The directory of the hwmon class. -/
def classDir (sysfsRoot : CStr) : CStr := sysfsRoot ++ "/class/hwmon".toList

/-- The path of an entry of a directory. -/
def entryPath (dir ent : CStr) : CStr := dir ++ '/' :: ent

/-- An entry that is not hidden and whose `name` attribute is exactly the chip's
name. -/
def Matching (files : CStr → Option CStr) (dir ent : CStr) : Prop :=
  ent.head? ≠ some '.' ∧
    (files (entryPath (entryPath dir ent) "name".toList)).map chomp = some guardChipName

instance (files : CStr → Option CStr) (dir : CStr) : DecidablePred (Matching files dir) :=
  fun _ => inferInstanceAs (Decidable (_ ∧ _))

/-- What reading an attribute gives. -/
def attrText (files : CStr → Option CStr) (dir attr : CStr) (max : ℕ) : Option CStr :=
  (files (snprintf (3072 + 64) (entryPath dir attr))).bind fun text => (fgets max text).map chomp

theorem guardDefaultIntervalMs_mem :
    0 ≤ guardDefaultIntervalMs ∧ guardDefaultIntervalMs ≤ guardMaxIntervalMs := by decide

/-- The chip at an entry. -/
def chipAt (files : CStr → Option CStr) (dir ent : CStr) : GuardChip where
  path := snprintf 3072 (entryPath dir ent)
  path_fits := by rw [snprintf, List.length_take]; omega
  updateIntervalMs :=
    ((attrText files (snprintf 3072 (entryPath dir ent)) "update_interval".toList 32).bind fun s =>
      parseRanged s 0 guardMaxIntervalMs).getD
        ⟨guardDefaultIntervalMs, guardDefaultIntervalMs_mem⟩

variable {host : Host W} {files : CStr → Option CStr}

theorem Host.Static.readAttr (h : host.Static files) (dir attr : CStr) (max : ℕ) (w : W) :
    (readAttr host dir attr max w).1 = attrText files dir attr max := by
  rw [attrText, ← h _ w]
  rfl

theorem Host.Static.readIntAttr (h : host.Static files) (dir attr : CStr) (lo hi : ℤ) (w : W) :
    (readIntAttr host dir attr lo hi w).1
      = (attrText files dir attr 32).bind fun s => parseRanged s lo hi := by
  rw [← h.readAttr dir attr 32 w]
  rfl

/-- An entry whose path fits is tested for what it is. -/
theorem matching_iff {dir ent : CStr} (hfit : (entryPath dir ent).length < 3072) :
    Matching files dir ent ↔ ent.head? ≠ some '.' ∧
      attrText files (snprintf 3072 (entryPath dir ent)) "name".toList 64 = some guardChipName := by
  -- neither path is cut
  have hpath : snprintf 3072 (entryPath dir ent) = entryPath dir ent :=
    List.take_of_length_le (by omega)
  have hname : snprintf (3072 + 64) (entryPath (entryPath dir ent) "name".toList)
      = entryPath (entryPath dir ent) "name".toList := by
    refine List.take_of_length_le ?_
    have hlen : "name".toList.length = 4 := by decide
    simp only [entryPath, List.length_append, List.length_cons] at hfit ⊢
    omega
  unfold Matching attrText
  rw [hpath, hname]
  refine and_congr_right fun _ => ?_
  cases files (entryPath (entryPath dir ent) "name".toList) with
  | none => simp
  | some text =>
    rw [Option.map_some, Option.some.injEq, Option.bind_some]
    exact (fgets_chomp_eq_some_iff (by decide) (by decide)).symm

/-- **What the loop collects.** The chips at the matching entries, in the order of
the entries, as long as there is room. -/
theorem findLoop_static (h : host.Static files) (dir : CStr) (max : ℕ) {ents : List CStr}
    (hfit : ∀ ent ∈ ents, (entryPath dir ent).length < 3072) (out : List GuardChip) (w : W) :
    (findLoop host dir max ents out w).1
      = out ++ ((ents.filter (Matching files dir ·)).map (chipAt files dir)).take
          (max - out.length) := by
  -- on the entries listed, with the chips found so far
  induction ents generalizing out w with
  | nil => simp [findLoop]
  | cons ent ents ih =>
    have ih := ih fun e he => hfit e (List.mem_cons_of_mem _ he)
    rw [findLoop]
    by_cases hroom : out.length < max
    · rw [if_pos hroom]
      -- a hidden entry is passed over unread
      by_cases hhidden : ent.head? = some '.'
      · have hno : ¬ Matching files dir ent := fun hm => hm.1 hhidden
        rw [if_pos hhidden, List.filter_cons_of_neg (by simpa using hno), ih]
      · rw [if_neg hhidden]
        have hmatch : Matching files dir ent ↔ _ := matching_iff (hfit ent List.mem_cons_self)
        have hattr := h.readAttr (snprintf 3072 (entryPath dir ent)) "name".toList 64 w
        cases hread :
          Astral.readAttr host (snprintf 3072 (entryPath dir ent)) "name".toList 64 w with
        | mk name w₁ =>
          rw [hread] at hattr
          rw [← hattr] at hmatch
          unfold entryPath at hread
          dsimp only
          rw [hread]
          -- its name is read, and decides
          by_cases hname : name = some guardChipName
          · have hyes : Matching files dir ent := hmatch.mpr ⟨hhidden, hname⟩
            rw [hname]
            dsimp only
            rw [if_neg (not_not.mpr rfl), List.filter_cons_of_pos (by simpa using hyes), ih]
            -- the chip takes one place
            have htake : max - out.length = max - (out.length + 1) + 1 := by omega
            rw [List.map_cons, htake, List.take_succ_cons, List.length_append,
              List.length_singleton, List.append_assoc, List.singleton_append, chipAt,
              ← h.readIntAttr _ _ 0 guardMaxIntervalMs w₁]
            rfl
          · have hno : ¬ Matching files dir ent := fun hm => hname (hmatch.mp hm).2
            rw [List.filter_cons_of_neg (by simpa using hno), ← ih _ w₁]
            cases name with
            | none => rfl
            | some name => exact congrArg Prod.fst (if_pos fun heq => hname (by rw [heq]))
    · rw [if_neg hroom, show max - out.length = 0 by omega, List.take_zero, List.append_nil]

end Static

/-! ### The sort -/

instance : IsTrans GuardChip byPath := ⟨fun _ _ _ => strcmpLe_trans⟩

instance : Std.Total byPath := ⟨fun c d => strcmpLe_total c.path d.path⟩

/-- Chips that their paths tell apart are sorted in one way. -/
theorem insertionSort_byPath_perm {cs ds : List GuardChip} (h : cs.Perm ds)
    (hpath : ∀ c ∈ cs, ∀ d ∈ cs, c.path = d.path → c = d) :
    cs.insertionSort byPath = ds.insertionSort byPath := by
  have hsorted : ∀ l : List GuardChip, (l.insertionSort byPath).Pairwise byPath :=
    fun l => l.pairwise_insertionSort byPath
  refine List.Perm.eq_of_pairwise (fun c d hc hd hcd hdc => ?_) (hsorted cs) (hsorted ds)
    ((cs.perm_insertionSort byPath).trans (h.trans (ds.perm_insertionSort byPath).symm))
  have hc' : c ∈ cs := (cs.mem_insertionSort byPath).mp hc
  have hd' : d ∈ cs := h.mem_iff.mpr ((ds.mem_insertionSort byPath).mp hd)
  exact hpath c hc' d hd' (strcmpLe_antisymm hcd hdc)

/-! ### What is found -/

section Found

variable {files : CStr → Option CStr} {sysfsRoot : CStr} {ents : List CStr}

/-- The chips at the matching entries. -/
def matchingChips (files : CStr → Option CStr) (sysfsRoot : CStr) (ents : List CStr) :
    List GuardChip :=
  (ents.filter (Matching files (classDir sysfsRoot) ·)).map (chipAt files (classDir sysfsRoot))

/-- Whatever order the entries come in, the same sorted list is returned, and every
matching entry is in it, once. -/
def Discovers (files : CStr → Option CStr) (sysfsRoot : CStr) (ents : List CStr) : Prop :=
  ∃ chips : List GuardChip,
    (∀ order : List CStr, order.Perm ents → ∀ (W : Type) (host : Host W) (w : W),
      host.Static files → (host.readDir (classDir sysfsRoot) w).1 = some order →
        (guardFindChips host sysfsRoot guardMaxChips w).1 = some chips) ∧
    chips.Pairwise byPath ∧
    ∀ ent ∈ ents, Matching files (classDir sysfsRoot) ent →
      (chips.map GuardChip.path).count (entryPath (classDir sysfsRoot) ent) = 1

/-- A machine at rest, with these entries in its class directory. -/
def restingHost (files : CStr → Option CStr) (ents : List CStr) : Host Unit where
  readDir _ w := (some ents, w)
  readFile path w := (files path, w)
  nanosleep _ w := w

/-- The paths of entries fit the buffer of a chip: a name has at most 255
characters. -/
theorem entryPath_fits (hroot : (classDir sysfsRoot).length < 2048)
    (hents : ∀ ent ∈ ents, ent.length ≤ 255) :
    ∀ ent ∈ ents, (entryPath (classDir sysfsRoot) ent).length < 3072 := by
  intro ent he
  have := hents ent he
  simp only [entryPath, List.length_append, List.length_cons]
  omega

/-- What is returned: the first matches, sorted. -/
theorem guardFindChips_static {W : Type*} {host : Host W} (h : host.Static files)
    (hroot : (classDir sysfsRoot).length < 2048) (hents : ∀ ent ∈ ents, ent.length ≤ 255) {w : W}
    (hlist : (host.readDir (classDir sysfsRoot) w).1 = some ents) (max : ℕ) :
    (guardFindChips host sysfsRoot max w).1
      = some (((matchingChips files sysfsRoot ents).take max).insertionSort byPath) := by
  have hdir : snprintf 2048 (sysfsRoot ++ "/class/hwmon".toList) = classDir sysfsRoot :=
    List.take_of_length_le (Nat.le_of_lt_succ hroot)
  unfold guardFindChips
  dsimp only
  rw [hdir]
  cases hread : host.readDir (classDir sysfsRoot) w with
  | mk found w₁ =>
    obtain rfl : found = some ents := by rw [← hlist, hread]
    -- the loop takes the matches in the order listed, up to the limit; the sort comes after
    have hloop := findLoop_static h (classDir sysfsRoot) max (entryPath_fits hroot hents) [] w₁
    dsimp only
    rw [hloop]
    rfl

theorem chipAt_path {dir ent : CStr} (hfit : (entryPath dir ent).length < 3072) :
    (chipAt files dir ent).path = entryPath dir ent :=
  List.take_of_length_le (by omega)

theorem entryPath_injective {dir ent ent' : CStr} (h : entryPath dir ent = entryPath dir ent') :
    ent = ent' := (List.cons.inj (List.append_cancel_left h)).2

/-- The paths of the matching chips are those of the matching entries. -/
theorem matchingChips_path (hroot : (classDir sysfsRoot).length < 2048)
    (hents : ∀ ent ∈ ents, ent.length ≤ 255) :
    (matchingChips files sysfsRoot ents).map GuardChip.path
      = (ents.filter (Matching files (classDir sysfsRoot) ·)).map
          (entryPath (classDir sysfsRoot)) := by
  rw [matchingChips, List.map_map]
  exact List.map_congr_left fun ent he =>
    chipAt_path (entryPath_fits hroot hents ent (List.mem_of_mem_filter he))

theorem matchingPaths_nodup (hnodup : ents.Nodup) :
    ((ents.filter (Matching files (classDir sysfsRoot) ·)).map
      (entryPath (classDir sysfsRoot))).Nodup :=
  (hnodup.filter _).map fun _ _ => entryPath_injective

theorem matchingChips_length : (matchingChips files sysfsRoot ents).length
    = ents.countP (Matching files (classDir sysfsRoot) ·) := by
  rw [matchingChips, List.length_map, List.countP_eq_length_filter]

/-- A list with room for four holds no more than four matches. -/
theorem Discovers.countP_le (h : Discovers files sysfsRoot ents)
    (hroot : (classDir sysfsRoot).length < 2048) (hents : ∀ ent ∈ ents, ent.length ≤ 255)
    (hnodup : ents.Nodup) :
    ents.countP (Matching files (classDir sysfsRoot) ·) ≤ guardMaxChips := by
  obtain ⟨chips, hsame, -, hall⟩ := h
  have hresting : (restingHost files ents).Static files := fun _ _ => rfl
  have hfound := hsame ents (.refl ents) Unit (restingHost files ents) () hresting rfl
  rw [guardFindChips_static hresting hroot hents rfl] at hfound
  have hlen : chips.length ≤ guardMaxChips := by
    rw [← Option.some.inj hfound, List.length_insertionSort, List.length_take]
    exact Nat.min_le_left _ _
  -- every matching path is among those of the chips
  have hsub : (ents.filter (Matching files (classDir sysfsRoot) ·)).map
      (entryPath (classDir sysfsRoot)) ⊆ chips.map GuardChip.path := by
    intro path hpath
    obtain ⟨ent, he, rfl⟩ := List.mem_map.mp hpath
    obtain ⟨hmem, hmatch⟩ := List.mem_filter.mp he
    exact List.count_pos_iff.mp (by rw [hall ent hmem (of_decide_eq_true hmatch)]; decide)
  have hle := ((matchingPaths_nodup hnodup).subperm hsub).length_le
  rw [List.length_map, List.length_map, ← List.countP_eq_length_filter] at hle
  exact hle.trans hlen

/-- **Discovery covers four chips.** In every readable class directory, discovery
returns one sorted list for every order of the entries, with every matching entry
in it once, exactly when there are no more than `GUARD_MAX_CHIPS` of them. -/
theorem guardFindChips_discovers (hroot : (classDir sysfsRoot).length < 2048)
    (hents : ∀ ent ∈ ents, ent.length ≤ 255) (hnodup : ents.Nodup) :
    Discovers files sysfsRoot ents ↔
      ents.countP (Matching files (classDir sysfsRoot) ·) ≤ guardMaxChips := by
  refine ⟨fun h => h.countP_le hroot hents hnodup, fun hroom => ?_⟩
  refine ⟨(matchingChips files sysfsRoot ents).insertionSort byPath, ?_,
    List.pairwise_insertionSort byPath _, fun ent he hmatch => ?_⟩
  · intro order horder W host w hstatic hlist
    have hents' : ∀ ent ∈ order, ent.length ≤ 255 := fun ent he => hents ent (horder.mem_iff.mp he)
    have hperm : (matchingChips files sysfsRoot order).Perm (matchingChips files sysfsRoot ents) :=
      (horder.filter _).map _
    -- with room for all of them nothing is cut off
    have hfits : (matchingChips files sysfsRoot order).length ≤ guardMaxChips := by
      rw [hperm.length_eq, matchingChips_length]
      exact hroom
    rw [guardFindChips_static hstatic hroot hents' hlist, List.take_of_length_le hfits,
      insertionSort_byPath_perm hperm]
    -- a path says which entry it is, so the sort leaves no choice
    intro c hc d hd hpath
    obtain ⟨ent, he, rfl⟩ := List.mem_map.mp hc
    obtain ⟨ent', he', rfl⟩ := List.mem_map.mp hd
    have hfit := entryPath_fits hroot hents'
    rw [chipAt_path (hfit ent (List.mem_of_mem_filter he)),
      chipAt_path (hfit ent' (List.mem_of_mem_filter he'))] at hpath
    rw [entryPath_injective hpath]
  -- no entry is listed twice, so each matching one is there once
  · have hpaths : (((matchingChips files sysfsRoot ents).insertionSort byPath).map
        GuardChip.path).Perm ((ents.filter (Matching files (classDir sysfsRoot) ·)).map
          (entryPath (classDir sysfsRoot))) := by
      rw [← matchingChips_path hroot hents]
      exact (List.perm_insertionSort byPath _).map _
    rw [hpaths.count_eq]
    refine List.count_eq_one_of_mem (matchingPaths_nodup hnodup) (List.mem_map.mpr ⟨ent, ?_, rfl⟩)
    exact List.mem_filter.mpr ⟨he, decide_eq_true hmatch⟩

end Found

/-- A machine on which every hwmon device is one of ours. -/
def ourChips (path : CStr) : Option CStr :=
  if "/name".toList <:+ path then some "astral12vhpwr\n".toList else none

/-- Two cards are both found. -/
theorem guardFindChips_discovers_twoCards :
    Discovers ourChips "/sys".toList ["hwmon10".toList, "hwmon3".toList] :=
  (guardFindChips_discovers (by decide) (by decide) (by decide)).mpr (by decide +kernel)

/-- The devices of five cards. -/
def fiveCards : List CStr :=
  ["hwmon1".toList, "hwmon2".toList, "hwmon3".toList, "hwmon4".toList, "hwmon5".toList]

/-- One of five cards is left out, and which it is depends on the order. -/
theorem guardFindChips_fiveCards :
    ((guardFindChips (restingHost ourChips fiveCards) "/sys".toList guardMaxChips ()).1.map
        (List.map GuardChip.path)
      ≠ (guardFindChips (restingHost ourChips fiveCards.reverse) "/sys".toList
          guardMaxChips ()).1.map (List.map GuardChip.path)) ∧
      ¬ Discovers ourChips "/sys".toList fiveCards := by
  refine ⟨by decide +kernel, fun h => ?_⟩
  have hle := h.countP_le (by decide) (by decide) (by decide)
  exact absurd hle (by decide +kernel)

end Astral
