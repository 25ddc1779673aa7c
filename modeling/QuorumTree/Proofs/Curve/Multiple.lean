import QuorumTree.Curve.Jacobian
import QuorumTree.Proofs.Curve.Group

/-!
Multiples of a point are multiples in the group. The running point of the program represents a point
of the curve, doubling and adding to it is doubling and adding there, and so the fold along the
digits of a number ends with that multiple.
-/

namespace QuorumTree

/-- The point of the curve whose coordinates are `x / z²` and `y / z³`. -/
inductive Jacobian.Represents : Jacobian → secp256k1.Point → Prop
  | infinity {p : Jacobian} (hz : p.z.toZMod = 0) : Represents p 0
  | affine {p : Jacobian} {x y : ZMod fieldPrime} (h : secp256k1.Nonsingular x y)
      (hz : p.z.toZMod ≠ 0) (hx : p.x.toZMod = x * p.z.toZMod ^ 2)
      (hy : p.y.toZMod = y * p.z.toZMod ^ 3) : Represents p (.some x y h)

namespace Jacobian.Represents

variable {p : Jacobian} {P : secp256k1.Point}

theorem toPoint (h : p.Represents P) : p.toPoint.Represents P := by
  unfold Jacobian.toPoint
  cases h with
  | infinity hz =>
      rw [if_pos (Coordinate.toZMod_eq_zero_iff.mp hz)]
      exact .infinity
  | affine hcurve hz hx hy =>
      rw [if_neg (mt Coordinate.toZMod_eq_zero_iff.mpr hz)]
      refine .of_eq ?_ ?_ hcurve
      · simp only [Coordinate.toZMod_mul, Coordinate.toZMod_inverse, hx]
        field_simp
      · simp only [Coordinate.toZMod_mul, Coordinate.toZMod_inverse, hy]
        field_simp

theorem double (h : p.Represents P) : p.double.Represents (P + P) := by
  cases h with
  | infinity hz =>
      rw [add_zero]
      exact .infinity (by simp [Jacobian.double, hz])
  | @affine x y hcurve hz hx hy =>
      by_cases hzero : y = 0
      · rw [WeierstrassCurve.Affine.Point.add_self_of_Y_eq (by simp [hzero])]
        exact .infinity (by simp [Jacobian.double, hy, hzero])
      · have htwice : 2 * y ≠ 0 := mul_ne_zero secp256k1.two_ne_zero hzero
        have htangent : secp256k1.slope x x y y * (2 * y) = 3 * (x * x) := by
          rw [secp256k1.slope_self htwice, div_mul_cancel₀ _ htwice]
        -- The doubled `z` is `2 * y * z ^ 4`, by which the tangent is taken over.
        have hm : 3 * (p.x * p.x).toZMod =
            secp256k1.slope x x y y * (2 * y) * p.z.toZMod ^ 4 := by
          rw [htangent, Coordinate.toZMod_mul, hx]
          ring
        rw [WeierstrassCurve.Affine.Point.add_self_of_Y_ne (secp256k1.ne_negY_iff.mpr htwice)]
        refine .affine _ ?_ ?_ ?_
        · simp only [Jacobian.double, Coordinate.toZMod_mul, Coordinate.toZMod_ofNat, hy]
          rw [show 2 * (y * p.z.toZMod ^ 3 * p.z.toZMod) = 2 * y * p.z.toZMod ^ 4 by ring]
          exact mul_ne_zero htwice (pow_ne_zero 4 hz)
        · simp only [Jacobian.double, Coordinate.toZMod_mul, Coordinate.toZMod_sub,
            Coordinate.toZMod_ofNat, secp256k1.addX_eq] at hm ⊢
          rw [hm, hx, hy]
          ring
        · simp only [Jacobian.double, Coordinate.toZMod_mul, Coordinate.toZMod_sub,
            Coordinate.toZMod_ofNat, secp256k1.addY_eq] at hm ⊢
          rw [hm, hx, hy]
          ring

theorem addAffine (h : p.Represents P) {x y : Coordinate}
    (hQ : secp256k1.Nonsingular x.toZMod y.toZMod) :
    (p.addAffine x y).Represents (P + .some _ _ hQ) := by
  simp only [Jacobian.addAffine]
  cases h with
  | infinity hz =>
      rw [if_pos (Coordinate.toZMod_eq_zero_iff.mp hz), zero_add]
      exact .affine hQ (by simp) (by simp) (by simp)
  | @affine a b hcurve hz hx hy =>
      rw [if_neg (mt Coordinate.toZMod_eq_zero_iff.mpr hz)]
      -- The differences of the coordinates, times powers of `z`.
      have hh : (x * (p.z * p.z) - p.x).toZMod = (x.toZMod - a) * p.z.toZMod ^ 2 := by
        simp only [Coordinate.toZMod_sub, Coordinate.toZMod_mul, hx]
        ring
      have hr : (y * (p.z * (p.z * p.z)) - p.y).toZMod = (y.toZMod - b) * p.z.toZMod ^ 3 := by
        simp only [Coordinate.toZMod_sub, Coordinate.toZMod_mul, hy]
        ring
      generalize x * (p.z * p.z) - p.x = h at hh ⊢
      generalize y * (p.z * (p.z * p.z)) - p.y = r at hr ⊢
      have hh_zero : h = 0 ↔ x.toZMod = a := by
        rw [← Coordinate.toZMod_eq_zero_iff, hh, mul_eq_zero_iff_right (pow_ne_zero 2 hz),
          sub_eq_zero]
      have hr_zero : r = 0 ↔ y.toZMod = b := by
        rw [← Coordinate.toZMod_eq_zero_iff, hr, mul_eq_zero_iff_right (pow_ne_zero 3 hz),
          sub_eq_zero]
      simp only [hh_zero, hr_zero]
      split_ifs with hsamex hsamey
      · subst hsamex hsamey
        exact double (.affine hcurve hz hx hy)
      · subst hsamex
        have hneg := (WeierstrassCurve.Affine.Y_eq_of_X_eq hcurve.1 hQ.1 rfl).resolve_left
          (Ne.symm hsamey)
        rw [WeierstrassCurve.Affine.Point.add_of_Y_eq rfl hneg]
        exact .infinity (by simp [Jacobian.infinity])
      · have hne : a ≠ x.toZMod := Ne.symm hsamex
        have hdiff : x.toZMod - a ≠ 0 := sub_ne_zero.mpr hsamex
        have hchord : secp256k1.slope a x.toZMod b y.toZMod * (x.toZMod - a) = y.toZMod - b := by
          rw [secp256k1.slope_of_ne hne, div_mul_cancel₀ _ hdiff]
        rw [← hchord] at hr
        rw [WeierstrassCurve.Affine.Point.add_of_X_ne hne]
        refine .affine _ ?_ ?_ ?_
        · rw [Coordinate.toZMod_mul, hh]
          exact mul_ne_zero hz (mul_ne_zero hdiff (pow_ne_zero 2 hz))
        · simp only [Coordinate.toZMod_mul, Coordinate.toZMod_sub, hh, hr, hx, secp256k1.addX_eq]
          ring
        · simp only [Coordinate.toZMod_mul, Coordinate.toZMod_sub, hh, hr, hx, hy,
            secp256k1.addY_eq]
          ring

end Jacobian.Represents

/-- The fold along the digits of a number, taken in the group, ends with that multiple. -/
theorem secp256k1.foldl_binaryDigits (P : secp256k1.Point) {n : Nat} (h : n < 2 ^ 256) :
    (binaryDigits n).foldl (fun acc bit => if bit then acc + acc + P else acc + acc) 0 = n • P :=
  QuorumTree.foldl_binaryDigits (Multiplicative.ofAdd P) h

theorem Point.Represents.scale {p : Point} {P : secp256k1.Point} (h : p.Represents P) {n : Nat}
    (hn : n < 2 ^ 256) : (Point.scale n p).Represents (n • P) := by
  cases h with
  | infinity =>
      rw [nsmul_zero]
      exact .infinity
  | affine hcurve =>
      rw [← secp256k1.foldl_binaryDigits _ hn]
      refine Jacobian.Represents.toPoint (List.foldl_rel ?_ ?_)
      · exact .infinity (by simp [Jacobian.infinity])
      · intro bit _ p P hp
        cases bit
        · exact hp.double
        · exact hp.double.addAffine hcurve

end QuorumTree
