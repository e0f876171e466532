import Mathlib.Data.BitVec
import Mathlib.Tactic.Common

/-!
# Comparing wrapping counters

A free-running counter of `w` bits wraps. Two of its readings are ordered by
the sign of their difference, which is right as long as the true counts behind
the readings are less than half the range apart (`before_iff`). `reading` is
the counter's value after a number of ticks from an arbitrary start.
-/

namespace WrapCounter

variable {w : ℕ}

/-- The reading of a `w`-bit counter `n` ticks after it stood at `start`. -/
def reading (start : BitVec w) (n : ℕ) : BitVec w :=
  start + BitVec.ofNat w n

/-- `a` is an earlier reading than `b`: their difference is negative as a
signed number. -/
def before (a b : BitVec w) : Bool :=
  decide ((a - b).toInt < 0)

/-- Advancing a reading is reading later. -/
theorem reading_add (start : BitVec w) (n m : ℕ) :
    reading start n + BitVec.ofNat w m = reading start (n + m) := by
  rw [reading, reading, BitVec.ofNat_add, BitVec.add_assoc]

/-- The difference of two readings is the difference of the counts, modulo the
range. -/
theorem reading_sub_reading (start : BitVec w) (n m : ℕ) :
    reading start n - reading start m = BitVec.ofInt w ((n : ℤ) - m) := by
  calc reading start n - reading start m
      -- the start cancels
      = BitVec.ofNat w n - BitVec.ofNat w m := by
        rw [reading, reading, add_sub_add_left_eq_sub]
    _ = BitVec.ofInt w n + -BitVec.ofInt w m := by
        rw [BitVec.ofInt_natCast, BitVec.ofInt_natCast, sub_eq_add_neg]
    _ = BitVec.ofInt w ((n : ℤ) - m) := by
        rw [sub_eq_add_neg (n : ℤ) (m : ℤ), BitVec.ofInt_add, BitVec.ofInt_neg]

/-- **Half-range rule.** The signed comparison orders two readings as their
true counts, whatever the start, while these lie less than half the range
apart. -/
theorem before_iff {start : BitVec w} {n m : ℕ} (hw : 0 < w)
    (hlo : m ≤ n + 2 ^ (w - 1)) (hhi : n < m + 2 ^ (w - 1)) :
    before (reading start n) (reading start m) = true ↔ n < m := by
  -- half the range either way, the signed difference is the true one
  have hval : (reading start n - reading start m).toInt = (n : ℤ) - m := by
    rw [reading_sub_reading]
    refine BitVec.toInt_ofInt_eq_self hw ?_ ?_
    · have : (m : ℤ) ≤ n + 2 ^ (w - 1) := by exact_mod_cast hlo
      omega
    · have : (n : ℤ) < m + 2 ^ (w - 1) := by exact_mod_cast hhi
      omega
  rw [before, decide_eq_true_iff, hval]
  omega

/-- A counter that is before `b`, and again after less than half the range, has been before
it all the time. -/
theorem before_between {start b : BitVec w} {n e d : ℕ} (hw : 0 < w)
    (hfirst : before (reading start n) b = true)
    (hlast : before (reading start (n + d)) b = true) (hed : e ≤ d) (hd : d < 2 ^ (w - 1)) :
    before (reading start (n + e)) b = true := by
  -- the distance to `b` grows with the counter, and wraps only when `b` is reached
  have hdist : ∀ k, reading start (n + k) - b = reading start n - b + BitVec.ofNat w k := by
    intro k
    rw [← reading_add, sub_add_eq_add_sub]
  have hrange : 2 ^ w = 2 * 2 ^ (w - 1) := by
    rw [← Nat.pow_succ', Nat.succ_eq_add_one, Nat.sub_add_cancel hw]
  have hlt := (reading start n - b).isLt
  rw [before, decide_eq_true_iff, BitVec.toInt_neg_iff] at hfirst hlast ⊢
  rw [hdist, BitVec.toNat_add, BitVec.toNat_ofNat, Nat.mod_eq_of_lt (a := d) (by omega)] at hlast
  rw [hdist, BitVec.toNat_add, BitVec.toNat_ofNat, Nat.mod_eq_of_lt (a := e) (by omega)]
  have hnowrap : (reading start n - b).toNat + d < 2 ^ w := by
    by_contra hwrap
    rw [Nat.mod_eq_sub_mod (by omega), Nat.mod_eq_of_lt (by omega)] at hlast
    omega
  rw [Nat.mod_eq_of_lt (by omega)]
  omega

end WrapCounter
