import QuorumTree.Curve.Point

/-!
Multiples of a point. A running point is held as `(X, Y, Z)` for the affine `(X / Z², Y / Z³)`, so
the one inverse that an answer needs is taken at the end.
-/

namespace QuorumTree

/-- The point `(x / z², y / z³)`, or infinity where `z` is zero. -/
structure Jacobian where
  x : Coordinate
  y : Coordinate
  z : Coordinate

namespace Jacobian

def infinity : Jacobian := ⟨1, 1, 0⟩

def toPoint (p : Jacobian) : Point :=
  if p.z = 0 then .infinity
  else
    let inv := p.z.inverse
    .affine (p.x * (inv * inv)) (p.y * (inv * inv * inv))

def double (p : Jacobian) : Jacobian :=
  let yy := p.y * p.y
  let s := 4 * (p.x * yy)
  let m := 3 * (p.x * p.x)
  let x := m * m - s - s
  ⟨x, m * (s - x) - 8 * (yy * yy), 2 * (p.y * p.z)⟩

def addAffine (p : Jacobian) (x y : Coordinate) : Jacobian :=
  if p.z = 0 then ⟨x, y, 1⟩
  else
    let zz := p.z * p.z
    let h := x * zz - p.x
    let r := y * (p.z * zz) - p.y
    if h = 0 then
      if r = 0 then double p else infinity
    else
      let hh := h * h
      let v := p.x * hh
      let x' := r * r - h * hh - v - v
      ⟨x', r * (v - x') - p.y * (h * hh), p.z * h⟩

end Jacobian

/-- The multiple `n • p` for `n` below 2^256, by doubling and adding. -/
def Point.scale (n : Nat) (p : Point) : Point :=
  match p with
  | .infinity => .infinity
  | .affine x y =>
    ((binaryDigits n).foldl
      (fun acc bit => if bit then acc.double.addAffine x y else acc.double)
      Jacobian.infinity).toPoint

end QuorumTree
