import AstralHwmon.Lib.Fold
import Mathlib.Data.List.FinRange
import Mathlib.Tactic.Common

/-!
# Arithmetic that can fault

The `int` of C is signed and 32 bits wide. A sum that does not fit in it, a division by
zero and an index beyond the end of an array have no meaning, and here they have no value:
an expression is an `Option`, and `none` is a fault. What does have a value has the
mathematical one, so that a checked computation that never faults is the unchecked one
over the integers.

A loop is a `foldlM` over its indices. `foldlM_eq_some` is the rule for it: an invariant,
indexed by the number of rounds, under which each round is free of faults.
-/

namespace CInt

universe u

/-! ### Expressions -/

/-- `INT_MIN`. -/
def intMin : ℤ := -2147483648

/-- `INT_MAX`. -/
def intMax : ℤ := 2147483647

/-- A value an `int` can hold. -/
def Fits (v : ℤ) : Prop := intMin ≤ v ∧ v ≤ intMax

instance (v : ℤ) : Decidable (Fits v) := inferInstanceAs (Decidable (_ ∧ _))

/-- An expression, or a conversion, with the value `v`. -/
def fit (v : ℤ) : Option ℤ := if Fits v then some v else none

/-- `a + b`. -/
def add (a b : ℤ) : Option ℤ := fit (a + b)

/-- `a - b`. -/
def sub (a b : ℤ) : Option ℤ := fit (a - b)

/-- `a * b`. -/
def mul (a b : ℤ) : Option ℤ := fit (a * b)

/-- `a / b`, rounded towards zero. -/
def div (a b : ℤ) : Option ℤ := if b = 0 then none else fit (a.tdiv b)

/-- `a % b`, which is undefined where the quotient is. -/
def mod (a b : ℤ) : Option ℤ := (div a b).map fun _ => a.tmod b

/-- `k++`, of a counter. -/
def inc (k : ℕ) : Option ℕ := (add k 1).map Int.toNat

theorem fit_eq_some {v : ℤ} (h : Fits v) : fit v = some v := if_pos h

theorem mul_eq_some {a b : ℤ} (h : Fits (a * b)) : mul a b = some (a * b) := fit_eq_some h

theorem sub_eq_some {a b : ℤ} (h : Fits (a - b)) : sub a b = some (a - b) := fit_eq_some h

theorem div_eq_some {a b : ℤ} (hb : b ≠ 0) (h : Fits (a.tdiv b)) :
    div a b = some (a.tdiv b) := by
  rw [div, if_neg hb, fit_eq_some h]

theorem add_eq_some {a b : ℤ} (h : Fits (a + b)) : add a b = some (a + b) := fit_eq_some h

theorem add_one_eq_some {k : ℕ} (h : (k : ℤ) < intMax) : add k 1 = some ((k : ℤ) + 1) := by
  have hmin : intMin ≤ 0 := by decide
  exact add_eq_some ⟨by omega, h⟩

theorem inc_eq_some {k : ℕ} (h : (k : ℤ) < intMax) : inc k = some (k + 1) := by
  rw [inc, add_one_eq_some h, Option.map_some]
  exact congrArg some Int.toNat_natCast_add_one

/-! ### Arrays -/

section Array

variable {n : ℕ} {α : Type*}

/-- `xs[i]`. -/
def get (xs : Fin n → α) (i : ℕ) : Option α := if h : i < n then some (xs ⟨i, h⟩) else none

/-- `xs[i] = v`. -/
def set (xs : Fin n → α) (i : ℕ) (v : α) : Option (Fin n → α) :=
  if h : i < n then some (Function.update xs ⟨i, h⟩ v) else none

/-- `hits[i]++`. -/
def bump (hits : Fin n → ℕ) (i : ℕ) : Option (Fin n → ℕ) :=
  (get hits i).bind fun k => (inc k).bind (set hits i)

theorem get_val (xs : Fin n → α) (i : Fin n) : get xs i.val = some (xs i) := dif_pos i.isLt

theorem set_val (xs : Fin n → α) (i : Fin n) (v : α) :
    set xs i.val v = some (Function.update xs i v) := dif_pos i.isLt

theorem bump_val {hits : Fin n → ℕ} {i : Fin n} (h : (hits i : ℤ) < intMax) :
    bump hits i.val = some (Function.update hits i (hits i + 1)) := by
  rw [bump, get_val, Option.bind_some, inc_eq_some h, Option.bind_some, set_val]

end Array

/-! ### Sequences and loops -/

section Loop

variable {α β : Type*}

/-- A computation goes on with what was computed. -/
theorem bind_eq {α β : Type u} {x : Option α} {a : α} {f : α → Option β} (h : x = some a) :
    x >>= f = f a := by
  rw [h, Option.bind_eq_bind, Option.bind_some]

variable {f : β → α → Option β} {g : β → α → β}

/-- **The loop rule.** Where an invariant makes every round free of faults and survives
it, the loop is free of faults, and the invariant holds at its end. -/
theorem foldlM_eq_some (I : ℕ → β → Prop) {l : List α} {k : ℕ} {b : β} (h0 : I k b)
    (hstep : ∀ i (hi : i < l.length) b, I (k + i) b →
      f b l[i] = some (g b l[i]) ∧ I (k + i + 1) (g b l[i])) :
    l.foldlM f b = some (l.foldl g b) ∧ I (k + l.length) (l.foldl g b) := by
  induction l generalizing k b with
  | nil => exact ⟨rfl, h0⟩
  | cons a l ih =>
    obtain ⟨hf, hI⟩ := hstep 0 (Nat.succ_pos _) b h0
    have hrest := ih hI fun i hi b hb => by
      have := hstep (i + 1) (Nat.succ_lt_succ hi) b (by rwa [Nat.add_right_comm] at hb)
      rwa [← Nat.add_assoc, Nat.add_right_comm k i 1] at this
    rw [List.foldlM_cons, show f b a = _ from hf]
    rwa [List.length_cons, ← Nat.add_assoc, Nat.add_right_comm]

/-- A loop over the indices of an array. -/
theorem range_foldlM_eq_some {n : ℕ} {f : β → ℕ → Option β} {g : β → Fin n → β}
    (I : ℕ → β → Prop) {b : β} (h0 : I 0 b)
    (hstep : ∀ (i : Fin n) b, I i.val b → f b i.val = some (g b i) ∧ I (i.val + 1) (g b i)) :
    (List.range n).foldlM f b = some ((List.finRange n).foldl g b) ∧
      I n ((List.finRange n).foldl g b) := by
  have h := foldlM_eq_some (f := fun b (i : Fin n) => f b i.val) (g := g) I (l := List.finRange n)
    (k := 0) (b := b) h0 fun i hi b hb => by
      rw [List.getElem_finRange]
      rw [Nat.zero_add] at hb ⊢
      exact hstep _ b hb
  rw [List.length_finRange, Nat.zero_add] at h
  rw [← List.map_coe_finRange_eq_range, List.foldlM_map]
  exact h

/-- A loop over the indices of a list that looks its elements up. -/
theorem range_foldlM_getElem? (f : β → α → Option β) (l : List α) (b : β) :
    (List.range l.length).foldlM (fun b i => l[i]?.bind (f b)) b = l.foldlM f b := by
  have hmap : (List.range l.length).map (fun i => l[i]?) = l.map some := by
    refine List.ext_getElem (by simp) fun i h1 h2 => ?_
    simp
  calc (List.range l.length).foldlM (fun b i => l[i]?.bind (f b)) b
      = ((List.range l.length).map (fun i => l[i]?)).foldlM (fun b a => a.bind (f b)) b := by
        rw [List.foldlM_map]
    _ = l.foldlM f b := by
        rw [hmap, List.foldlM_map]
        rfl

end Loop

end CInt
