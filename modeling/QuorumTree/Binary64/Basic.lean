import QuorumTree.Text.Decimal

/-!
Binary floating-point numbers of sixty-four bits. A finite number is a significand below 2^53 times
a power of two that is at least 2^-1074; a quotient is rounded to the nearest of them, and a tie to
the one with the even significand. Each number has one form, so equal forms mean equal numbers, and
the two zeros differ.
-/

namespace QuorumTree

inductive Binary64
  | notANumber
  | infinite (isNegative : Bool)
  | finite (isNegative : Bool) (significand : Nat) (exponent : Int)
  deriving DecidableEq, Repr

namespace Binary64

def leastExponent : Int := -1074

def greatestExponent : Int := 971

/-- A quotient rounded to a whole number, and to an even one from halfway. -/
def roundDiv (num den : Nat) : Nat :=
  let below := num / den
  let rest := num % den
  if den < 2 * rest ∨ (2 * rest = den ∧ below % 2 = 1) then below + 1 else below

def scaleDown (num den : Nat) (exponent : Int) : Nat × Nat :=
  if 0 ≤ exponent then (num, den * 2 ^ exponent.toNat) else (num * 2 ^ (-exponent).toNat, den)

/-- The exponent at which a quotient that is not zero has a significand of the given count of bits.
-/
def exponentOfWidth (bits num den : Nat) : Int :=
  let guess : Int := num.log2 - den.log2 - bits
  let (scaledNum, scaledDen) := scaleDown num den guess
  if scaledNum / scaledDen < 2 ^ bits then guess else guess + 1

/-- The exponent at which a quotient that is not zero has a significand of fifty-three bits, or the
least exponent where it has fewer. -/
def exponentFor (num den : Nat) : Int :=
  max leastExponent (exponentOfWidth 53 num den)

def ofRounded (isNegative : Bool) (significand : Nat) (exponent : Int) : Binary64 :=
  let isFull := significand = 2 ^ 53
  let exponent := if isFull then exponent + 1 else exponent
  if greatestExponent < exponent then infinite isNegative
  else finite isNegative (if isFull then 2 ^ 52 else significand) exponent

def nearest (isNegative : Bool) (num den : Nat) : Binary64 :=
  if num = 0 then finite isNegative 0 leastExponent
  else
    let exponent := exponentFor num den
    let (scaledNum, scaledDen) := scaleDown num den exponent
    ofRounded isNegative (roundDiv scaledNum scaledDen) exponent

def ofInt (n : Int) : Binary64 :=
  nearest (n < 0) n.natAbs 1

/-- The number nearest to a numeral. What lies far outside the range is not multiplied out. -/
def ofNumeral (numeral : Text.Numeral) : Binary64 :=
  let reach := (Nat.toDigits 10 numeral.mantissa).length + numeral.exponent
  if numeral.mantissa = 0 ∨ reach < -330 then finite numeral.isNegative 0 leastExponent
  else if 310 < reach then infinite numeral.isNegative
  else if 0 ≤ numeral.exponent then
    nearest numeral.isNegative (numeral.mantissa * 10 ^ numeral.exponent.toNat) 1
  else nearest numeral.isNegative numeral.mantissa (10 ^ (-numeral.exponent).toNat)

def negate : Binary64 → Binary64
  | notANumber => notANumber
  | infinite isNegative => infinite !isNegative
  | finite isNegative significand exponent => finite (!isNegative) significand exponent

/-- A finite number times `2 ^ -leastExponent`, which is whole. -/
def scaled (isNegative : Bool) (significand : Nat) (exponent : Int) : Int :=
  let magnitude : Int := significand * 2 ^ (exponent - leastExponent).toNat
  if isNegative then -magnitude else magnitude

/-- The number nearest to a sum. A sum of zero is positive unless both summands are negative. -/
def add : Binary64 → Binary64 → Binary64
  | notANumber, _ | _, notANumber => notANumber
  | infinite a, infinite b => if a = b then infinite a else notANumber
  | infinite a, _ | _, infinite a => infinite a
  | finite a s e, finite b t f =>
    let sum := scaled a s e + scaled b t f
    nearest (if sum = 0 then a && b else sum < 0) sum.natAbs (2 ^ (-leastExponent).toNat)

def toInt? : Binary64 → Option Int
  | finite isNegative significand exponent =>
    let scaledValue := scaled isNegative significand exponent
    let unit : Int := 2 ^ (-leastExponent).toNat
    if scaledValue % unit = 0 then some (scaledValue / unit) else none
  | _ => none

def ceiling? : Binary64 → Option Int
  | finite isNegative significand exponent =>
    some (-(-scaled isNegative significand exponent / 2 ^ (-leastExponent).toNat))
  | _ => none

end Binary64

end QuorumTree
