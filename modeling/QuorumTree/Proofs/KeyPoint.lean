import QuorumTree.Proofs.Curve.Group
import QuorumTree.PublicKey

/-!
Public keys as points of the group. Each finite point of the curve is the point of one key, and the
bytes of the key are the compressed form of the point: its parity, then its x-coordinate.
-/

namespace QuorumTree

/-- The compressed form of a finite point. -/
def secp256k1.compressed? : secp256k1.Point → Option Bytes
  | .zero => none
  | .some x y _ => some (PublicKey.parityTag (y.val % 2 == 0) :: Bytes.bigEndian 32 x.val)

@[simp] theorem Coordinate.val_toZMod (a : Coordinate) : a.toZMod.val = a.val :=
  ZMod.val_natCast_of_lt a.isLt

namespace PublicKey

/-- The point of the curve that a key is. -/
def toCurve (key : PublicKey) : secp256k1.Point :=
  .some _ _ (Point.onCurve_iff.mp key.onCurve)

theorem represents_toPoint (key : PublicKey) : key.toPoint.Represents key.toCurve :=
  .affine _

theorem toCurve_injective : Function.Injective toCurve := by
  rintro ⟨x, y, hcurve⟩ ⟨x', y', hcurve'⟩ h
  have hrepresents := represents_toPoint ⟨x, y, hcurve⟩
  rw [h] at hrepresents
  cases hrepresents.eq_of_left (represents_toPoint ⟨x', y', hcurve'⟩)
  rfl

theorem compressed?_toCurve (key : PublicKey) :
    secp256k1.compressed? key.toCurve = some key.bytes := by
  simp [secp256k1.compressed?, toCurve, bytes, xOnly, hasEvenY, Coordinate.isEven, Bytes32.ofNat]

variable {p : Point} {P : secp256k1.Point}

/-- A point that stands for a point of the curve is the point of a key unless it is at infinity. -/
theorem exists_ofPoint? (h : p.Represents P) :
    P = 0 ∧ ofPoint? p = none ∨ ∃ key, key.toCurve = P ∧ ofPoint? p = some key := by
  cases h with
  | infinity => exact .inl ⟨rfl, rfl⟩
  | affine hcurve =>
      have honCurve := Point.onCurve_iff.mpr hcurve
      exact .inr ⟨⟨_, _, honCurve⟩, rfl, dif_pos honCurve⟩

theorem toCurve_ne_zero (key : PublicKey) : key.toCurve ≠ 0 :=
  WeierstrassCurve.Affine.Point.some_ne_zero _

theorem ofPoint?_eq_none_iff (h : p.Represents P) : ofPoint? p = none ↔ P = 0 := by
  rcases exists_ofPoint? h with ⟨rfl, hnone⟩ | ⟨key, rfl, hkey⟩
  · simp [hnone]
  · simp [hkey, key.toCurve_ne_zero]

theorem toCurve_of_ofPoint? (h : p.Represents P) {key : PublicKey} (hkey : ofPoint? p = some key) :
    key.toCurve = P := by
  rcases exists_ofPoint? h with ⟨-, hnone⟩ | ⟨key', hcurve, hkey'⟩
  · rw [hnone] at hkey
    cases hkey
  · rw [hkey] at hkey'
    cases hkey'
    exact hcurve

end PublicKey

end QuorumTree
