import QuorumTree.Binary64.Basic

/-!
Numbers with eleven bits more than floating-point numbers have, in which a conversion between binary
and decimal is carried out. Each operation rounds its exact result to sixty-four bits, and a tie to
the even neighbour, so a conversion of several steps may end next to the nearest number.
-/

namespace QuorumTree

/-- A number that is not negative: a whole multiple of a power of two. -/
structure Extended where
  significand : Nat
  exponent : Int
  deriving DecidableEq, Repr

namespace Extended

/-- The count of bits that an operation keeps. -/
def width : Nat := 64

def ofQuotient (num den : Nat) (exponent : Int) : Extended :=
  if num = 0 then ⟨0, 0⟩
  else
    let unit := Binary64.exponentOfWidth width num den
    let (scaledNum, scaledDen) := Binary64.scaleDown num den unit
    ⟨Binary64.roundDiv scaledNum scaledDen, unit + exponent⟩

def ofNat (n : Nat) : Extended := ⟨n, 0⟩

def ofBinary64 : Binary64 → Extended
  | .finite _ significand exponent => ⟨significand, exponent⟩
  | _ => ⟨0, 0⟩

def quotient (x : Extended) : Nat × Nat :=
  Binary64.scaleDown x.significand 1 (-x.exponent)

def toBinary64 (isNegative : Bool) (x : Extended) : Binary64 :=
  Binary64.nearest isNegative x.quotient.1 x.quotient.2

/-- A number as a multiple of a power of two that divides it. -/
def inUnits (x : Extended) (unit : Int) : Nat :=
  x.significand * 2 ^ (x.exponent - unit).toNat

def commonUnit (x y : Extended) : Int :=
  min x.exponent y.exponent

def mul (x y : Extended) : Extended :=
  ofQuotient (x.significand * y.significand) 1 (x.exponent + y.exponent)

def div (x y : Extended) : Extended :=
  ofQuotient x.significand y.significand (x.exponent - y.exponent)

def add (x y : Extended) : Extended :=
  let unit := commonUnit x y
  ofQuotient (x.inUnits unit + y.inUnits unit) 1 unit

/-- A difference, or zero where it is negative. -/
def sub (x y : Extended) : Extended :=
  let unit := commonUnit x y
  ofQuotient (x.inUnits unit - y.inUnits unit) 1 unit

def lt (x y : Extended) : Bool :=
  let unit := commonUnit x y
  decide (x.inUnits unit < y.inUnits unit)

def floor (x : Extended) : Nat :=
  x.quotient.1 / x.quotient.2

/-- A number raised by repeated squaring, where `result` holds what was raised already. -/
def raise (base result : Extended) (power : Nat) : Extended :=
  let result := if power % 2 = 1 then result.mul base else result
  if power < 2 then result else raise (base.mul base) result (power / 2)
termination_by power

def powerOfTen (power : Nat) : Extended :=
  raise (ofNat 10) (ofNat 1) power

end Extended

end QuorumTree
