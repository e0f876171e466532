import Mathlib.Data.List.Basic
import Mathlib.Order.Lattice
import Mathlib.Order.OrderDual
import Mathlib.Tactic.Common

/-!
# Loops as folds: counting, keeping the worst, keeping the last

The shapes of loop that evaluators and option parsers are made of.

* A *hit counter* goes up on the elements that satisfy a predicate. It reaches
  the number of elements exactly when all of them do (`hits_eq_length_iff`), so
  a test of the counter is a test of persistence.
* A *running worst* is replaced by an element whose key is strictly greater. It
  ends on an element of the greatest key (`le_worst`, `worst_mem`), and equal
  keys never displace it (`worst_eq_or_lt`).
* A slot *tracks* the worst when each step replaces it by what its element shows,
  if that is anything and worse (`Tracks.foldl`).
* A *sweep* rewrites each slot of an array in turn, which is to rewrite all of them
  (`Sweeps.foldl`).
* A *slot* is overwritten by some of the elements. It ends on what the last of
  them wrote (`Overwrites.foldl`). A *flag* is a slot that is only ever raised:
  it ends up exactly when it was up or some element raises it (`foldl_flag`).
* Steps that change a part of the state only *frame* the rest (`foldl_frame`).
-/

namespace Fold

variable {α β γ κ : Type*}

/-! ### Hit counters -/

section Hits

variable {step : β → α → β} {count : β → ℕ} {p : α → Prop} [DecidablePred p]

/-- A counter that every step raises by one exactly when `p` holds. -/
def CountsHits (step : β → α → β) (count : β → ℕ) (p : α → Prop) [DecidablePred p] : Prop :=
  ∀ b a, count (step b a) = if p a then count b + 1 else count b

theorem CountsHits.foldl (h : CountsHits step count p) (l : List α) (b : β) :
    count (l.foldl step b) = count b + l.countP (fun a => decide (p a)) := by
  induction l generalizing b with
  | nil => simp
  | cons a l ih =>
    -- the first step decides the start the rest counts from
    rw [List.foldl_cons, ih, h, List.countP_cons]
    by_cases ha : p a
    · rw [if_pos ha, decide_eq_true ha, if_pos rfl]; omega
    · rw [if_neg ha, decide_eq_false ha, if_neg (by simp)]; omega

/-- **Persistence.** A counter that starts at zero reaches the number of
elements exactly when every one of them is a hit. -/
theorem CountsHits.hits_eq_length_iff (h : CountsHits step count p) {b : β} (hb : count b = 0)
    (l : List α) : count (l.foldl step b) = l.length ↔ ∀ a ∈ l, p a := by
  calc count (l.foldl step b) = l.length
      ↔ l.countP (fun a => decide (p a)) = l.length := by rw [h.foldl, hb, Nat.zero_add]
    _ ↔ ∀ a ∈ l, p a := by simp only [List.countP_eq_length, decide_eq_true_eq]

end Hits

/-! ### Keeping the worst -/

section Worst

variable [LinearOrder κ] (key : α → κ)

/-- The worse of two: the second only when its key is strictly greater. -/
def worse (a b : α) : α := if key a < key b then b else a

/-- The worst of a list, starting from `a`. -/
def worst (a : α) (l : List α) : α := l.foldl (worse key) a

theorem le_worse_left (a b : α) : key a ≤ key (worse key a b) := by
  unfold worse
  split
  next h => exact h.le
  next => exact le_rfl

theorem le_worse_right (a b : α) : key b ≤ key (worse key a b) := by
  unfold worse
  split
  next => exact le_rfl
  next h => exact not_lt.mp h

theorem worse_eq (a b : α) : worse key a b = a ∨ worse key a b = b := by
  unfold worse
  split
  · exact Or.inr rfl
  · exact Or.inl rfl

theorem worst_cons (a b : α) (l : List α) :
    worst key a (b :: l) = worst key (worse key a b) l := rfl

theorem le_worst_init (a : α) (l : List α) : key a ≤ key (worst key a l) := by
  induction l generalizing a with
  | nil => exact le_rfl
  | cons b l ih => exact (le_worse_left key a b).trans (ih _)

/-- Nothing in the list is worse than the worst. -/
theorem le_worst {b : α} {l : List α} (h : b ∈ l) (a : α) : key b ≤ key (worst key a l) := by
  induction l generalizing a with
  | nil => exact absurd h List.not_mem_nil
  | cons c l ih =>
    rcases List.mem_cons.mp h with rfl | h
    -- the step that meets `b` ends at least as bad, and the rest only gets worse
    · exact (le_worse_right key a b).trans (le_worst_init key _ l)
    · exact ih h _

/-- The worst is the start or an element of the list. -/
theorem worst_mem (a : α) (l : List α) : worst key a l = a ∨ worst key a l ∈ l := by
  induction l generalizing a with
  | nil => exact Or.inl rfl
  | cons b l ih =>
    rw [worst_cons]
    rcases ih (worse key a b) with h | h
    · rcases worse_eq key a b with hw | hw
      · exact Or.inl (h.trans hw)
      · exact Or.inr (List.mem_cons.mpr (Or.inl (h.trans hw)))
    · exact Or.inr (List.mem_cons_of_mem b h)

/-- The start is only displaced by something strictly worse. -/
theorem worst_eq_or_lt (a : α) (l : List α) : worst key a l = a ∨ key a < key (worst key a l) := by
  induction l generalizing a with
  | nil => exact Or.inl rfl
  | cons b l ih =>
    rw [worst_cons]
    by_cases hab : key a < key b
    -- displaced at once, and what follows is no better
    · rw [worse, if_pos hab]
      exact Or.inr (hab.trans_le (le_worst_init key b l))
    · rw [worse, if_neg hab]
      exact ih a

/-- Starting from something no worse than any element, the worst is an element. -/
theorem worst_mem_of_le (hinj : Function.Injective key) {a : α} {l : List α} (hne : l ≠ [])
    (h : ∀ b ∈ l, key a ≤ key b) : worst key a l ∈ l := by
  rcases worst_mem key a l with heq | hmem
  · -- the start was never displaced, so an element is as bad as it
    obtain ⟨b, hb⟩ := List.exists_mem_of_ne_nil l hne
    have hle := le_worst key hb a
    rw [heq] at hle ⊢
    rwa [hinj (le_antisymm (h b hb) hle)]
  · exact hmem

/-- Where keys tell elements apart, the worst depends on nothing but what is listed. -/
theorem worst_congr (hinj : Function.Injective key) (a : α) {l l' : List α}
    (h : ∀ b, b ∈ l ↔ b ∈ l') : worst key a l = worst key a l' := by
  have hle : ∀ {m m' : List α}, (∀ b, b ∈ m ↔ b ∈ m') →
      key (worst key a m) ≤ key (worst key a m') := by
    intro m m' hmm
    rcases worst_mem key a m with heq | hmem
    · rw [heq]
      exact le_worst_init key a m'
    · exact le_worst key ((hmm _).mp hmem) a
  exact hinj (le_antisymm (hle h) (hle fun b => (h b).symm))

/-- A slot that each step replaces by what its element shows, if it shows anything
and that is worse. -/
def Tracks (step : β → γ → β) (slot : β → α) (shows? : γ → Option α) : Prop :=
  ∀ b c, slot (step b c) = ((shows? c).map (worse key (slot b))).getD (slot b)

variable {key} in
theorem Tracks.foldl {step : β → γ → β} {slot : β → α} {shows? : γ → Option α}
    (h : Tracks key step slot shows?) (l : List γ) (b : β) :
    slot (l.foldl step b) = worst key (slot b) (l.filterMap shows?) := by
  induction l generalizing b with
  | nil => rfl
  | cons c l ih =>
    rw [List.foldl_cons, ih, h]
    cases hc : shows? c with
    | none => rw [List.filterMap_cons_none hc]; rfl
    | some a => rw [List.filterMap_cons_some hc, worst_cons]; rfl

end Worst

/-! ### Keeping the last -/

section Last

variable {step : β → α → β} {slot : β → γ} {write : α → Option γ}

/-- A slot that a step sets to what its element writes, if it writes at all. -/
def Overwrites (step : β → α → β) (slot : β → γ) (write : α → Option γ) : Prop :=
  ∀ b a, slot (step b a) = (write a).getD (slot b)

/-- **The last write wins.** -/
theorem Overwrites.foldl (h : Overwrites step slot write) (l : List α) (b : β) :
    slot (l.foldl step b) = (l.filterMap write).getLastD (slot b) := by
  induction l generalizing b with
  | nil => rfl
  | cons a l ih =>
    rw [List.foldl_cons, ih, h]
    cases hw : write a with
    | none => rw [List.filterMap_cons_none hw, Option.getD_none]
    -- what `a` wrote is what holds before the writes that follow it
    | some c => rw [List.filterMap_cons_some hw, List.getLastD_cons, Option.getD_some]

theorem foldl_flag {flag : β → Bool} {p : α → Prop}
    (h : ∀ b a, flag (step b a) = true ↔ flag b = true ∨ p a) (l : List α) (b : β) :
    flag (l.foldl step b) = true ↔ flag b = true ∨ ∃ a ∈ l, p a := by
  induction l generalizing b with
  | nil => simp
  | cons a l ih => rw [List.foldl_cons, ih, h, List.exists_mem_cons_iff, or_assoc]

end Last

/-! ### Sweeping an array -/

section Sweep

variable {ι : Type*} [DecidableEq ι] {step : β → ι → β} {slots : β → ι → γ} {h : ι → γ → γ}

/-- A step that rewrites the one slot it is about, from what the slot holds. -/
def Sweeps (step : β → ι → β) (slots : β → ι → γ) (h : ι → γ → γ) : Prop :=
  ∀ b i, slots (step b i) = Function.update (slots b) i (h i (slots b i))

/-- **A sweep rewrites every slot once**, whatever the order it goes in. -/
theorem Sweeps.foldl (hs : Sweeps step slots h) {l : List ι} (hl : l.Nodup) (b : β) (i : ι) :
    slots (l.foldl step b) i = if i ∈ l then h i (slots b i) else slots b i := by
  induction l generalizing b with
  | nil => rfl
  | cons j l ih =>
    obtain ⟨hj, hl⟩ := List.nodup_cons.mp hl
    rw [List.foldl_cons, ih hl, hs]
    by_cases hij : i = j
    · -- the rest of the sweep leaves the first slot alone
      subst hij
      rw [if_neg hj, Function.update_self, if_pos List.mem_cons_self]
    · rw [Function.update_of_ne hij]
      simp only [List.mem_cons, hij, false_or]

theorem Sweeps.foldl_of_mem (hs : Sweeps step slots h) {l : List ι} (hl : l.Nodup) {i : ι}
    (hi : i ∈ l) (b : β) : slots (l.foldl step b) i = h i (slots b i) := by
  rw [hs.foldl hl, if_pos hi]

end Sweep

/-! ### Leaving the rest alone -/

/-- A loop whose steps change one part of the state changes that part, and puts it back
into the state it started from. -/
theorem foldl_frame {step : β → α → β} (part : β → γ) (put : β → γ → β)
    (hpart : ∀ b, put b (part b) = b) (hput : ∀ b x y, put (put b x) y = put b y)
    (hstep : ∀ b a, put b (part (step b a)) = step b a) (l : List α) (b : β) :
    l.foldl step b = put b (part (l.foldl step b)) := by
  induction l generalizing b with
  | nil => exact (hpart b).symm
  | cons a l ih =>
    calc (a :: l).foldl step b = put (step b a) (part (l.foldl step (step b a))) := ih _
      _ = put (put b (part (step b a))) (part (l.foldl step (step b a))) := by rw [hstep]
      _ = put b (part ((a :: l).foldl step b)) := hput _ _ _

end Fold
