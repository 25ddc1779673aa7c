import QuorumTree.Binary64.Basic

/-!
Floating-point numbers in decimal. The shortest form of a number has the fewest digits that are read
back as it, and of those the nearest.
-/

namespace QuorumTree.Binary64

/-- The exponent of the first decimal digit of a quotient that is not zero. -/
def firstExponent (num den : Nat) : Int :=
  if den ≤ num then (Nat.toDigits 10 (num / den)).length - 1
  else -(Nat.toDigits 10 ((den + num - 1) / num - 1)).length

def inUnits (num den : Nat) (exponent : Int) : Nat × Nat :=
  if 0 ≤ exponent then (num, den * 10 ^ exponent.toNat) else (num * 10 ^ (-exponent).toNat, den)

def quotient (significand : Nat) (exponent : Int) : Nat × Nat :=
  if 0 ≤ exponent then (significand * 2 ^ exponent.toNat, 1)
  else (significand, 2 ^ (-exponent).toNat)

/-- The whole number next to a quotient that is read back, in units of a power of ten, as the given
number: the nearer one, and from halfway the even one, where both are. -/
def readBack? (number : Binary64) (num den : Nat) (exponent : Int) : Option Nat :=
  let (scaledNum, scaledDen) := inUnits num den exponent
  let below := scaledNum / scaledDen
  let reads := fun mantissa => ofNumeral ⟨false, mantissa, exponent, false⟩ == number
  let nearer := roundDiv scaledNum scaledDen
  if reads nearer then some nearer
  else if reads below then some below
  else if reads (below + 1) then some (below + 1)
  else none

/-- The most decimal digits that are ever needed. -/
def maxDigits : Nat := 17

/-- The shortest form of the magnitude of a finite number that is not zero, as a whole number of a
power of ten. -/
def shortest (significand : Nat) (exponent : Int) : Nat × Int :=
  let (num, den) := quotient significand exponent
  let first := firstExponent num den
  let found := (List.range maxDigits).findSome? fun (more : Nat) =>
    (readBack? (finite false significand exponent) num den (first - more)).map (·, first - more)
  found.getD (significand, 0)

def textIn (style : Text.DecimalStyle) (form : Nat → Int → Nat × Int) : Binary64 → String
  | notANumber => style.noNumber
  | infinite isNegative => Text.signed isNegative style.infinity.toList
  | finite isNegative 0 _ => style.zero isNegative
  | finite isNegative significand exponent =>
    let (mantissa, power) := form significand exponent
    style.layOut isNegative mantissa power

/-- Numbers are shown positionally from four zeros after the point to sixteen digits before it. -/
def shownStyle : Text.DecimalStyle where
  leastPositional := -4
  greatestPositional := 15
  pointBeforeExponent := false
  signedZero := true
  infinity := "inf"
  noNumber := "nan"

def shown : Binary64 → String :=
  textIn shownStyle shortest

end QuorumTree.Binary64
