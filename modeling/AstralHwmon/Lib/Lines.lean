import AstralHwmon.Lib.CText

/-!
# Lines, tags and blocks

What it takes to read a report that was made for people. A text is a list of lines, each
ended by a newline (`unlines`, and `lines` back). A line begins with one of some tags, of
which none begins another, so that the tag and the rest of the line are read off
(`readTag_eq_some_iff`). The lines come in blocks, a line that opens a block and the items
under it (`readBlocks_eq_some_iff`).

Each reader is the inverse of a writer in both directions: it reads what was written, and
what it reads it could have been written.
-/

open CText

namespace Lines

/-! ### Lines -/

/-- The lines of a text. -/
def lines : CStr → List CStr
  | [] => []
  | c :: cs =>
    if c = '\n' then [] :: lines cs
    else
      match lines cs with
      | [] => [[c]]
      | l :: ls => (c :: l) :: ls

/-- Lines as a text. -/
def unlines (ls : List CStr) : CStr := ls.flatMap (· ++ ['\n'])

theorem unlines_append (ls ls' : List CStr) : unlines (ls ++ ls') = unlines ls ++ unlines ls' :=
  List.flatMap_append

theorem lines_line {l : CStr} (h : '\n' ∉ l) (rest : CStr) :
    lines (l ++ '\n' :: rest) = l :: lines rest := by
  induction l with
  | nil => rw [List.nil_append, lines, if_pos rfl]
  | cons c l ih =>
    obtain ⟨hc, hl⟩ := List.ne_and_not_mem_of_not_mem_cons h
    rw [List.cons_append, lines, if_neg (Ne.symm hc), ih hl]

/-- No line has a newline in it. -/
theorem newline_notMem_of_mem_lines {s l : CStr} (h : l ∈ lines s) : '\n' ∉ l := by
  induction s generalizing l with
  | nil => exact absurd h List.not_mem_nil
  | cons c cs ih =>
    rw [lines] at h
    split at h
    next =>
      -- the line the newline ends is empty, the rest are the tail's
      rcases List.mem_cons.mp h with rfl | h
      · exact List.not_mem_nil
      · exact ih h
    next hc =>
      split at h
      next =>
        obtain rfl := List.mem_singleton.mp h
        exact fun hmem => hc (List.mem_singleton.mp hmem).symm
      next l' ls heq =>
        -- the first line of the tail grows by the character, which is not a newline
        have hls : ∀ {l}, l ∈ l' :: ls → '\n' ∉ l := fun hmem => ih (heq ▸ hmem)
        rcases List.mem_cons.mp h with rfl | h
        · intro hmem
          rcases List.mem_cons.mp hmem with rfl | hmem
          · exact hc rfl
          · exact hls List.mem_cons_self hmem
        · exact hls (List.mem_cons_of_mem _ h)

/-- **Lines are read back** exactly when none has a newline in it. -/
theorem lines_unlines_iff {ls : List CStr} : lines (unlines ls) = ls ↔ ∀ l ∈ ls, '\n' ∉ l := by
  constructor
  · intro h l hl
    exact newline_notMem_of_mem_lines (h ▸ hl)
  · intro h
    induction ls with
    | nil => rfl
    | cons l ls ih =>
      obtain ⟨hl, hls⟩ := List.forall_mem_cons.mp h
      have hsplit : unlines (l :: ls) = l ++ '\n' :: unlines ls := by
        rw [unlines, List.flatMap_cons, List.append_assoc]
        rfl
      rw [hsplit, lines_line hl, ih hls]

/-! ### Tags -/

section Tags

variable {κ : Type*} (tag : κ → CStr)

/-- No tag is the beginning of another. -/
def PrefixFree : Prop := ∀ k k', tag k <+: tag k' → k = k'

/-- The tag, of the given ones, that a line begins with, and the rest of the line. -/
def readTag (keys : List κ) (line : CStr) : Option (κ × CStr) :=
  (keys.find? fun k => (tag k).isPrefixOf line).map fun k => (k, line.drop (tag k).length)

variable {tag}

/-- **Tag and rest** are read of a line exactly when the line is the one before the other. -/
theorem readTag_eq_some_iff (hfree : PrefixFree tag) {keys : List κ} (hkeys : ∀ k, k ∈ keys)
    {line rest : CStr} {k : κ} :
    readTag tag keys line = some (k, rest) ↔ line = tag k ++ rest := by
  constructor
  · intro h
    obtain ⟨k', hfind, heq⟩ := Option.map_eq_some_iff.mp h
    obtain ⟨rfl, rfl⟩ := Prod.mk.inj heq
    have hpre : (tag k').isPrefixOf line = true :=
      List.find?_some (p := fun k => (tag k).isPrefixOf line) hfind
    obtain ⟨rest, rfl⟩ := List.isPrefixOf_iff_prefix.mp hpre
    rw [List.drop_left]
  · rintro rfl
    have hpre : (tag k).isPrefixOf (tag k ++ rest) = true :=
      List.isPrefixOf_iff_prefix.mpr (List.prefix_append _ _)
    -- of two tags that a line begins with, one begins the other
    have honly : ∀ k', (tag k').isPrefixOf (tag k ++ rest) = true → k' = k := by
      intro k' hk'
      rcases List.prefix_or_prefix_of_prefix (List.isPrefixOf_iff_prefix.mp hk')
        (List.prefix_append (tag k) rest) with h | h
      · exact hfree k' k h
      · exact (hfree k k' h).symm
    have hfind : keys.find? (fun k' => (tag k').isPrefixOf (tag k ++ rest)) = some k := by
      cases hfind : keys.find? fun k' => (tag k').isPrefixOf (tag k ++ rest) with
      | none => exact absurd hpre (List.find?_eq_none.mp hfind k (hkeys k))
      | some k' =>
        rw [honly k' (List.find?_some (p := fun k' => (tag k').isPrefixOf (tag k ++ rest)) hfind)]
    rw [readTag, hfind, Option.map_some, List.drop_left]

end Tags

/-! ### Blocks -/

section Blocks

variable {α β : Type*} (head : CStr → Option α) (item : CStr → Option β)

/-- A line, in front of the items and the blocks that were read behind it. -/
def readLine (line : CStr) (acc : Option (List β × List (α × List β))) :
    Option (List β × List (α × List β)) :=
  acc.bind fun (items, blocks) =>
    match item line with
    | some b => some (b :: items, blocks)
    | none => (head line).map fun a => ([], (a, items) :: blocks)

/-- The blocks of a list of lines, with no item before the first. -/
def readBlocks (ls : List CStr) : Option (List (α × List β)) :=
  match ls.foldr (readLine head item) (some ([], [])) with
  | some ([], blocks) => some blocks
  | _ => none

/-- The lines of blocks. -/
def blockLines (showHead : α → CStr) (showItem : β → CStr) (blocks : List (α × List β)) :
    List CStr :=
  blocks.flatMap fun block => showHead block.1 :: block.2.map showItem

variable {head item} {showHead : α → CStr} {showItem : β → CStr}

/-- What the lines up to a point are: items, and blocks behind them. -/
theorem foldr_readLine_eq_some_iff (hhead : ∀ line a, head line = some a ↔ line = showHead a)
    (hitem : ∀ line b, item line = some b ↔ line = showItem b)
    (hnot : ∀ a, item (showHead a) = none) {ls : List CStr} {items : List β}
    {blocks : List (α × List β)} :
    ls.foldr (readLine head item) (some ([], [])) = some (items, blocks) ↔
      ls = items.map showItem ++ blockLines showHead showItem blocks := by
  constructor
  · intro h
    induction ls generalizing items blocks with
    | nil =>
      obtain ⟨rfl, rfl⟩ := Prod.mk.inj (Option.some.inj h)
      rfl
    | cons line ls ih =>
      rw [List.foldr_cons, readLine] at h
      obtain ⟨⟨items', blocks'⟩, hrest, hline⟩ := Option.bind_eq_some_iff.mp h
      have hls := ih hrest
      dsimp only at hline
      cases hread : item line with
      | some b =>
        rw [hread] at hline
        obtain ⟨rfl, rfl⟩ := Prod.mk.inj (Option.some.inj hline)
        rw [(hitem line b).mp hread, hls]
        rfl
      | none =>
        rw [hread] at hline
        obtain ⟨a, ha, heq⟩ := Option.map_eq_some_iff.mp hline
        obtain ⟨rfl, rfl⟩ := Prod.mk.inj heq
        rw [(hhead line a).mp ha, hls]
        rfl
  · rintro rfl
    -- behind the items come the blocks, each with its own items
    have hitems : ∀ (items : List β) {rest : List CStr} {items' : List β}
        {blocks : List (α × List β)},
        rest.foldr (readLine head item) (some ([], [])) = some (items', blocks) →
          (items.map showItem ++ rest).foldr (readLine head item) (some ([], []))
            = some (items ++ items', blocks) := by
      intro items rest items' blocks hrest
      induction items with
      | nil => exact hrest
      | cons b items ih =>
        rw [List.map_cons, List.cons_append, List.foldr_cons, ih, readLine, Option.bind_some]
        dsimp only
        rw [(hitem _ b).mpr rfl]
        rfl
    have hblocks : (blockLines showHead showItem blocks).foldr (readLine head item) (some ([], []))
        = some ([], blocks) := by
      induction blocks with
      | nil => rfl
      | cons block blocks ih =>
        have hrest := hitems block.2 ih
        rw [blockLines] at hrest
        rw [blockLines, List.flatMap_cons, List.cons_append, List.foldr_cons, hrest, readLine,
          Option.bind_some]
        dsimp only
        rw [hnot block.1, (hhead _ block.1).mpr rfl, List.append_nil]
        rfl
    rw [hitems items hblocks, List.append_nil]

/-- **Blocks are read** of exactly their lines. -/
theorem readBlocks_eq_some_iff (hhead : ∀ line a, head line = some a ↔ line = showHead a)
    (hitem : ∀ line b, item line = some b ↔ line = showItem b)
    (hnot : ∀ a, item (showHead a) = none) {ls : List CStr} {blocks : List (α × List β)} :
    readBlocks head item ls = some blocks ↔ ls = blockLines showHead showItem blocks := by
  have hfold : ls.foldr (readLine head item) (some ([], [])) = some ([], blocks) ↔
      ls = blockLines showHead showItem blocks := foldr_readLine_eq_some_iff hhead hitem hnot
  rw [← hfold]
  unfold readBlocks
  cases ls.foldr (readLine head item) (some ([], [])) with
  | none => simp
  | some out =>
    obtain ⟨items, blocks'⟩ := out
    cases items with
    | nil => simp
    | cons b items => simp

end Blocks

end Lines
