/-!
The numbers of the curve secp256k1. Coordinates are counted modulo a prime; powers are taken bit by
bit, and inverses and square roots are powers.
-/

namespace QuorumTree

/-- The prime that coordinates are counted modulo, 2^256 - 2^32 - 977. -/
def fieldPrime : Nat :=
  0xfffffffffffffffffffffffffffffffffffffffffffffffffffffffefffffc2f

/-- The number of points of the curve, the one at infinity included. -/
def groupOrder : Nat :=
  0xfffffffffffffffffffffffffffffffebaaedce6af48a03bbfd25e8cd0364141

abbrev Coordinate := Fin fieldPrime

instance : @NeZero Nat Zero.ofOfNat0 fieldPrime := ⟨by decide⟩

/-- The low 256 binary digits of a number, most significant first. -/
def binaryDigits (n : Nat) : List Bool :=
  (List.range 256).reverse.map n.testBit

namespace Coordinate

def ofNat? (n : Nat) : Option Coordinate :=
  if h : n < fieldPrime then some ⟨n, h⟩ else none

/-- The power `a ^ n` for exponents below 2^256, by squaring. -/
def power (a : Coordinate) (n : Nat) : Coordinate :=
  (binaryDigits n).foldl (fun acc bit => if bit then acc * acc * a else acc * acc) 1

/-- The inverse of a coordinate other than zero, by the little theorem of Fermat. -/
def inverse (a : Coordinate) : Coordinate :=
  power a (fieldPrime - 2)

/-- A square root. The prime leaves three modulo four, so a square has this power as a root. -/
def sqrt? (a : Coordinate) : Option Coordinate :=
  let root := power a ((fieldPrime + 1) / 4)
  if root * root = a then some root else none

def isEven (a : Coordinate) : Bool :=
  a.val % 2 == 0

end Coordinate

end QuorumTree
