import QuorumTree.Curve.Coordinate

/-!
The curve y² = x³ + 7 with its group law in affine coordinates. Adding follows the chord through
two points, doubling the tangent at one, and a point and its negative add up to infinity.
-/

namespace QuorumTree

inductive Point
  | infinity
  | affine (x y : Coordinate)
  deriving DecidableEq

namespace Point

def OnCurve (x y : Coordinate) : Prop :=
  y * y = x * x * x + 7

instance (x y : Coordinate) : Decidable (OnCurve x y) :=
  inferInstanceAs (Decidable (y * y = x * x * x + 7))

theorem OnCurve.neg {x y : Coordinate} (h : OnCurve x y) : OnCurve x (-y) := by
  unfold OnCurve at *
  rw [← h]
  grind

/-- The negative of the third point of the curve on the line of the given slope through `(x, y)` and
a point with x-coordinate `x'`. -/
def third (slope x y x' : Coordinate) : Point :=
  let x'' := slope * slope - x - x'
  affine x'' (slope * (x - x'') - y)

def double : Point → Point
  | infinity => infinity
  | affine x y =>
    if y = 0 then infinity
    else third (3 * (x * x) * Coordinate.inverse (2 * y)) x y x

def add : Point → Point → Point
  | infinity, q => q
  | p, infinity => p
  | affine x y, affine x' y' =>
    if x = x' then
      if y = y' then double (affine x y) else infinity
    else third ((y' - y) * Coordinate.inverse (x' - x)) x y x'

def sum (points : List Point) : Point :=
  points.foldl add infinity

/-- The point that all multiples are taken of when a secret is turned into a key. -/
def generator : Point :=
  affine 0x79be667ef9dcbbac55a06295ce870b07029bfcdb2dce28d959f2815b16f81798
    0x483ada7726a3c4655da4fbfc0e1108a8fd17b448a68554199c47d08ffb10d4b8

end Point

end QuorumTree
