import Mathlib.AlgebraicGeometry.EllipticCurve.Affine.Point
import Mathlib.Tactic.FieldSimp
import Mathlib.Tactic.LinearCombination
import QuorumTree.Curve.Point
import QuorumTree.Proofs.Curve.Field

/-!
The group of the curve. Points as the program holds them represent the points of an elliptic curve
over the field of coordinates, each of those in one way, and adding them is the group law.
-/

namespace QuorumTree

/-- The curve y² = x³ + 7. -/
def secp256k1 : WeierstrassCurve.Affine (ZMod fieldPrime) :=
  ⟨0, 0, 0, 0, 7⟩

namespace secp256k1

@[simp] theorem a₁_eq : secp256k1.a₁ = 0 := rfl

@[simp] theorem a₂_eq : secp256k1.a₂ = 0 := rfl

@[simp] theorem a₃_eq : secp256k1.a₃ = 0 := rfl

@[simp] theorem a₄_eq : secp256k1.a₄ = 0 := rfl

@[simp] theorem a₆_eq : secp256k1.a₆ = 7 := rfl

theorem natCast_ne_zero {n : Nat} (hpos : 0 < n) (hlt : n < fieldPrime) :
    (n : ZMod fieldPrime) ≠ 0 := by
  rw [Ne, ZMod.natCast_eq_zero_iff]
  exact Nat.not_dvd_of_pos_of_lt hpos hlt

theorem two_ne_zero : (2 : ZMod fieldPrime) ≠ 0 :=
  natCast_ne_zero (n := 2) (by decide) (by decide)

theorem Δ_ne_zero : secp256k1.Δ ≠ 0 := by
  have hΔ : secp256k1.Δ = -((21168 : Nat) : ZMod fieldPrime) := by
    simp only [WeierstrassCurve.Δ, WeierstrassCurve.b₂, WeierstrassCurve.b₄, WeierstrassCurve.b₆,
      WeierstrassCurve.b₈, a₁_eq, a₂_eq, a₃_eq, a₄_eq, a₆_eq]
    norm_num
  rw [hΔ, neg_ne_zero]
  exact natCast_ne_zero (by decide) (by decide)

theorem nonsingular_iff {x y : ZMod fieldPrime} :
    secp256k1.Nonsingular x y ↔ y * y = x * x * x + 7 := by
  rw [← WeierstrassCurve.Affine.equation_iff_nonsingular_of_Δ_ne_zero Δ_ne_zero,
    WeierstrassCurve.Affine.equation_iff]
  simp [pow_succ]

theorem negY_eq (x y : ZMod fieldPrime) : secp256k1.negY x y = -y := by
  simp

theorem addX_eq (x x' slope : ZMod fieldPrime) :
    secp256k1.addX x x' slope = slope * slope - x - x' := by
  simp [pow_two]

theorem addY_eq (x x' y slope : ZMod fieldPrime) :
    secp256k1.addY x x' y slope = slope * (x - (slope * slope - x - x')) - y := by
  rw [WeierstrassCurve.Affine.addY, WeierstrassCurve.Affine.negAddY, negY_eq, addX_eq]
  ring

theorem ne_negY_iff {x y : ZMod fieldPrime} : y ≠ secp256k1.negY x y ↔ 2 * y ≠ 0 := by
  rw [negY_eq, Ne, eq_neg_iff_add_eq_zero, ← two_mul]

/-- No point has a zero y-coordinate: -7 is no cube, since its power to a third of one less than the
prime is not one. -/
theorem y_ne_zero {x y : ZMod fieldPrime} (h : secp256k1.Nonsingular x y) : y ≠ 0 := by
  rintro rfl
  have hcube : x ^ 3 = ((fieldPrime - 7 : Nat) : ZMod fieldPrime) := by
    rw [Nat.cast_sub (by decide), ZMod.natCast_self, zero_sub, eq_neg_iff_add_eq_zero]
    have hcurve := nonsingular_iff.mp h
    rw [mul_zero] at hcurve
    rw [pow_succ, pow_two]
    exact hcurve.symm
  have hx : x ≠ 0 := by
    rintro rfl
    exact natCast_ne_zero (n := fieldPrime - 7) (by decide) (by decide) (by simpa using hcube.symm)
  have hpower : powMod fieldPrime (fieldPrime - 7) ((fieldPrime - 1) / 3) % fieldPrime ≠
      1 % fieldPrime := by decide +kernel
  refine hpower ((ZMod.natCast_eq_natCast_iff' _ _ fieldPrime).mp ?_)
  rw [natCast_powMod _ _ (by decide), ← hcube, ← pow_mul, Nat.cast_one]
  exact ZMod.pow_card_sub_one_eq_one hx

/-- The slope of the tangent at a point. -/
theorem slope_self {x y : ZMod fieldPrime} (h : 2 * y ≠ 0) :
    secp256k1.slope x x y y = 3 * (x * x) / (2 * y) := by
  rw [WeierstrassCurve.Affine.slope_of_Y_ne rfl (ne_negY_iff.mpr h)]
  simp [pow_two, two_mul]

/-- The slope of the chord through two points. -/
theorem slope_of_ne {x x' : ZMod fieldPrime} (h : x ≠ x') (y y' : ZMod fieldPrime) :
    secp256k1.slope x x' y y' = (y' - y) / (x' - x) := by
  rw [WeierstrassCurve.Affine.slope_of_X_ne h, ← neg_sub y, ← neg_sub x, neg_div_neg_eq]

end secp256k1

namespace Point

theorem onCurve_iff {x y : Coordinate} :
    OnCurve x y ↔ secp256k1.Nonsingular x.toZMod y.toZMod := by
  rw [secp256k1.nonsingular_iff, OnCurve, ← Coordinate.toZMod_inj]
  simp

/-- The point of the curve that a point stands for. -/
inductive Represents : Point → secp256k1.Point → Prop
  | infinity : Represents infinity 0
  | affine {x y : Coordinate} (h : secp256k1.Nonsingular x.toZMod y.toZMod) :
      Represents (affine x y) (.some _ _ h)

namespace Represents

variable {p p' : Point} {P P' : secp256k1.Point} {x y x' y' : Coordinate}

theorem of_eq {a b : ZMod fieldPrime} (hx : x.toZMod = a) (hy : y.toZMod = b)
    (h : secp256k1.Nonsingular a b) : Represents (.affine x y) (.some a b h) := by
  subst hx hy
  exact .affine h

/-- A point of the curve is represented in one way only. -/
theorem eq_of_left (h : p.Represents P) (h' : p'.Represents P) : p = p' := by
  generalize hsame : P = P'' at h'
  cases h with
  | infinity =>
      cases h' with
      | infinity => rfl
      | affine => cases hsame
  | affine hcurve =>
      cases h' with
      | infinity => cases hsame
      | affine hcurve' =>
          rw [WeierstrassCurve.Affine.Point.some.injEq, Coordinate.toZMod_inj,
            Coordinate.toZMod_inj] at hsame
          rw [hsame.1, hsame.2]

/-- The third point on a line through two points stands for the negative of their sum, given that
the slope is that of the line. -/
theorem third {slope : Coordinate} {h : secp256k1.Nonsingular x.toZMod y.toZMod}
    {h' : secp256k1.Nonsingular x'.toZMod y'.toZMod}
    (hne : ¬(x.toZMod = x'.toZMod ∧ y.toZMod = secp256k1.negY x'.toZMod y'.toZMod))
    (hslope : slope.toZMod = secp256k1.slope x.toZMod x'.toZMod y.toZMod y'.toZMod) :
    (Point.third slope x y x').Represents (.some _ _ h + .some _ _ h') := by
  rw [WeierstrassCurve.Affine.Point.add_some hne]
  refine of_eq ?_ ?_ _
  · simp [hslope, pow_two]
  · simp [hslope, secp256k1.addY_eq]

theorem double (h : p.Represents P) : p.double.Represents (P + P) := by
  cases h with
  | infinity =>
      rw [add_zero]
      exact .infinity
  | @affine x y hcurve =>
      rw [Point.double]
      split_ifs with hy
      · subst hy
        rw [WeierstrassCurve.Affine.Point.add_self_of_Y_eq (by simp)]
        exact .infinity
      · have htwice : 2 * y.toZMod ≠ 0 :=
          mul_ne_zero secp256k1.two_ne_zero (mt Coordinate.toZMod_eq_zero_iff.mp hy)
        refine third (fun hsame => secp256k1.ne_negY_iff.mpr htwice hsame.2) ?_
        rw [secp256k1.slope_self htwice, div_eq_mul_inv]
        simp [Coordinate.toZMod_inverse]

theorem add (h : p.Represents P) (h' : p'.Represents P') : (p.add p').Represents (P + P') := by
  cases h with
  | infinity =>
      rw [zero_add]
      exact h'
  | @affine x y hcurve =>
      cases h' with
      | infinity =>
          rw [add_zero]
          exact .affine hcurve
      | @affine x' y' hcurve' =>
          rw [Point.add]
          split_ifs with hx hy
          · subst hx hy
            exact (affine hcurve).double
          · subst hx
            have hneg := (WeierstrassCurve.Affine.Y_eq_of_X_eq hcurve.1 hcurve'.1 rfl).resolve_left
              (mt Coordinate.toZMod_inj.mp hy)
            rw [WeierstrassCurve.Affine.Point.add_of_Y_eq rfl hneg]
            exact .infinity
          · have hne : x.toZMod ≠ x'.toZMod := mt Coordinate.toZMod_inj.mp hx
            refine third (fun hsame => hne hsame.1) ?_
            rw [secp256k1.slope_of_ne hne, div_eq_mul_inv]
            simp [Coordinate.toZMod_inverse]

theorem foldl_add {ps : List Point} {Ps : List secp256k1.Point} (h : p.Represents P)
    (hterms : List.Forall₂ Represents ps Ps) : (ps.foldl Point.add p).Represents (P + Ps.sum) := by
  induction hterms generalizing p P with
  | nil =>
      rw [List.sum_nil, add_zero]
      exact h
  | cons hterm _ ih =>
      rw [List.sum_cons, ← add_assoc]
      exact ih (h.add hterm)

theorem sum {ps : List Point} {Ps : List secp256k1.Point} (h : List.Forall₂ Represents ps Ps) :
    (Point.sum ps).Represents Ps.sum := by
  rw [← zero_add Ps.sum]
  exact infinity.foldl_add h

end Represents

end Point

end QuorumTree
