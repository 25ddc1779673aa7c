import QuorumTree.Proofs.Curve.SquareRoot

/-!
Arithmetic of coordinates is that of the field with `fieldPrime` elements: the operations agree with
those of the field, and the power taken for an inverse is the inverse.
-/

namespace QuorumTree.Coordinate

@[simp] theorem toZMod_zero : (0 : Coordinate).toZMod = 0 :=
  Nat.cast_zero

@[simp] theorem toZMod_one : (1 : Coordinate).toZMod = 1 :=
  Nat.cast_one

@[simp] theorem toZMod_add (a b : Coordinate) : (a + b).toZMod = a.toZMod + b.toZMod := by
  rw [toZMod, Fin.val_add, ZMod.natCast_mod, Nat.cast_add]
  rfl

@[simp] theorem toZMod_sub (a b : Coordinate) : (a - b).toZMod = a.toZMod - b.toZMod := by
  have hval : (a - b).val = ((fieldPrime - b.val) + a.val) % fieldPrime := rfl
  rw [toZMod, hval, ZMod.natCast_mod, Nat.cast_add, Nat.cast_sub (Nat.le_of_lt b.isLt),
    ZMod.natCast_self, zero_sub, neg_add_eq_sub]
  rfl

@[simp] theorem toZMod_ofNat (n : Nat) [n.AtLeastTwo] :
    (ofNat(n) : Coordinate).toZMod = OfNat.ofNat n := by
  have hval : (OfNat.ofNat n : Coordinate).val = n % fieldPrime := rfl
  rw [toZMod, hval, ZMod.natCast_mod]
  rfl

theorem toZMod_inj {a b : Coordinate} : a.toZMod = b.toZMod ↔ a = b :=
  toZMod_injective.eq_iff

theorem toZMod_eq_zero_iff {a : Coordinate} : a.toZMod = 0 ↔ a = 0 := by
  rw [← toZMod_zero, toZMod_inj]

theorem toZMod_inverse (a : Coordinate) : a.inverse.toZMod = a.toZMod⁻¹ := by
  rw [inverse, toZMod_power a (by decide)]
  by_cases ha : a.toZMod = 0
  · rw [ha, inv_zero, zero_pow (by decide)]
  · refine eq_inv_of_mul_eq_one_left ?_
    rw [← pow_succ]
    exact ZMod.pow_card_sub_one_eq_one ha

end QuorumTree.Coordinate
