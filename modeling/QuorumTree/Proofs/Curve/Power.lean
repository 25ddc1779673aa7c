import Mathlib.Algebra.Group.Basic
import Mathlib.Tactic.Ring
import QuorumTree.Curve.Coordinate
import QuorumTree.Power

/-!
Powers taken bit by bit. The fold that squares and multiplies along the binary digits of an exponent
ends with the power itself, in any monoid.
-/

namespace QuorumTree

theorem mod_two_pow_succ (n width : Nat) :
    n % 2 ^ (width + 1) = (n.testBit width).toNat * 2 ^ width + n % 2 ^ width := by
  have hbit : (n.testBit width).toNat = n / 2 ^ width % 2 := by
    rcases Nat.mod_two_eq_zero_or_one (n / 2 ^ width) with h | h <;>
      simp [Nat.testBit_eq_decide_div_mod_eq, h]
  rw [hbit, Nat.pow_succ, Nat.mod_mul, Nat.mul_comm, Nat.add_comm]

/-- The digits below a width, folded onto a power of `a`, put those digits behind its exponent. -/
theorem foldl_testBit {M : Type} [Monoid M] (a : M) (n width start : Nat) :
    ((List.range width).reverse.map n.testBit).foldl
        (fun acc bit => if bit then acc * acc * a else acc * acc) (a ^ start) =
      a ^ (start * 2 ^ width + n % 2 ^ width) := by
  induction width generalizing start with
  | zero => simp [Nat.mod_one]
  | succ width ih =>
      have hstep : (if n.testBit width then a ^ start * a ^ start * a else a ^ start * a ^ start) =
          a ^ (2 * start + (n.testBit width).toNat) := by
        cases n.testBit width
        · simp [← pow_add, two_mul]
        · simp [← pow_add, ← pow_succ, two_mul]
      rw [List.range_succ, List.reverse_append, List.reverse_singleton, List.singleton_append,
        List.map_cons, List.foldl_cons, hstep, ih, mod_two_pow_succ, pow_succ]
      congr 1
      ring

theorem foldl_binaryDigits {M : Type} [Monoid M] (a : M) {n : Nat} (h : n < 2 ^ 256) :
    (binaryDigits n).foldl (fun acc bit => if bit then acc * acc * a else acc * acc) 1 = a ^ n := by
  have hfold := foldl_testBit a n 256 0
  rwa [pow_zero, Nat.zero_mul, Nat.zero_add, Nat.mod_eq_of_lt h] at hfold

end QuorumTree
