import Mathlib.FieldTheory.Finite.Basic
import QuorumTree.Proofs.Curve.FieldPrime

/-!
Square roots of coordinates. Coordinates are the numbers of a field, so every square has the root
that a fixed power makes of it, and it has only two roots, a number and its negative.
-/

namespace QuorumTree

instance : Fact fieldPrime.Prime := ⟨fieldPrime_prime⟩

namespace Coordinate

/-- A coordinate as a number of the field. -/
def toZMod (a : Coordinate) : ZMod fieldPrime :=
  (a.val : ZMod fieldPrime)

theorem toZMod_injective : Function.Injective toZMod := by
  intro a b h
  rw [toZMod, toZMod, ZMod.natCast_eq_natCast_iff', Nat.mod_eq_of_lt a.isLt,
    Nat.mod_eq_of_lt b.isLt] at h
  exact Fin.ext h

@[simp] theorem toZMod_mul (a b : Coordinate) : (a * b).toZMod = a.toZMod * b.toZMod := by
  rw [toZMod, Fin.val_mul, ZMod.natCast_mod, Nat.cast_mul]
  rfl

@[simp] theorem toZMod_neg (a : Coordinate) : (-a).toZMod = -a.toZMod := by
  have hval : (-a).val = (fieldPrime - a.val) % fieldPrime := rfl
  rw [toZMod, hval, ZMod.natCast_mod, Nat.cast_sub (Nat.le_of_lt a.isLt), ZMod.natCast_self,
    zero_sub]
  rfl

theorem toZMod_power (a : Coordinate) {n : Nat} (h : n < 2 ^ 256) :
    (power a n).toZMod = a.toZMod ^ n := by
  have hstep (acc : Coordinate) (bit : Bool) :
      (if bit then acc.toZMod * acc.toZMod * a.toZMod else acc.toZMod * acc.toZMod) =
        (if bit then acc * acc * a else acc * acc).toZMod := by
    cases bit <;> simp
  have hone : (1 : Coordinate).toZMod = 1 := by
    rw [toZMod]
    exact Nat.cast_one
  rw [← foldl_binaryDigits a.toZMod h, power, ← hone]
  exact (List.foldl_hom toZMod hstep).symm

/-- The power that is taken for a square root squares to a square. -/
theorem power_mul_power (y : Coordinate) :
    power (y * y) ((fieldPrime + 1) / 4) * power (y * y) ((fieldPrime + 1) / 4) = y * y := by
  have hexponent : (fieldPrime + 1) / 4 < 2 ^ 256 := by decide
  have hfour : (fieldPrime + 1) / 4 + (fieldPrime + 1) / 4 +
      ((fieldPrime + 1) / 4 + (fieldPrime + 1) / 4) = fieldPrime + 1 := by decide
  refine toZMod_injective ?_
  calc (power (y * y) ((fieldPrime + 1) / 4) * power (y * y) ((fieldPrime + 1) / 4)).toZMod
      = (y.toZMod * y.toZMod) ^ ((fieldPrime + 1) / 4) *
          (y.toZMod * y.toZMod) ^ ((fieldPrime + 1) / 4) := by
        rw [toZMod_mul, toZMod_power _ hexponent, toZMod_mul]
    _ = y.toZMod ^ (fieldPrime + 1) := by
        rw [mul_pow, ← pow_add, ← pow_add, hfour]
    _ = (y * y).toZMod := by
        rw [pow_succ, ZMod.pow_card, toZMod_mul]

theorem exists_sqrt? (y : Coordinate) :
    ∃ root, sqrt? (y * y) = some root ∧ root * root = y * y := by
  refine ⟨power (y * y) ((fieldPrime + 1) / 4), ?_, power_mul_power y⟩
  unfold sqrt?
  rw [if_pos (power_mul_power y)]

theorem eq_or_eq_neg_of_mul_self_eq {y y' : Coordinate} (h : y * y = y' * y') :
    y = y' ∨ y = -y' := by
  have hsquare : y.toZMod * y.toZMod = y'.toZMod * y'.toZMod := by
    rw [← toZMod_mul, h, toZMod_mul]
  rcases mul_self_eq_mul_self_iff.mp hsquare with hsame | hneg
  · exact .inl (toZMod_injective hsame)
  · exact .inr (toZMod_injective (hneg.trans (toZMod_neg y').symm))

end Coordinate

end QuorumTree
