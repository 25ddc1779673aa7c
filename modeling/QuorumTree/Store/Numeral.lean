import QuorumTree.Binary64.Extended

/-!
Decimal numerals of stored numbers. A numeral is read into a significand of at most nineteen digits
and a power of ten, and a number is written with fifteen digits. Both go through extended numbers
step by step, so the last digit is not always that of the nearest numeral or number.
-/

namespace QuorumTree.Store.Numeral

/-- The significand from which no further digit is read. -/
def fullSignificand : Nat := (2 ^ 63 - 10) / 10

/-- The digits of a significand that are read, and how many are not. -/
def readable (mantissa : Nat) : Nat × Nat :=
  let digits := (Nat.toDigits 10 mantissa).length
  let read? := fun (count : Nat) =>
    let significand := mantissa / 10 ^ (digits - count)
    if fullSignificand ≤ significand then some (significand, digits - count) else none
  ((List.range (digits + 1)).findSome? read?).getD (mantissa, 0)

/-- Moves tens from the power into the significand as long as it stays small. -/
def absorbTens : Nat → Nat → Nat × Nat
  | significand, 0 => (significand, 0)
  | significand, power + 1 =>
    if (2 ^ 63 - 1) / 10 ≤ significand then (significand, power + 1)
    else absorbTens (significand * 10) power

/-- Cancels tens of the significand against the power it is divided by. -/
def cancelTens : Nat → Nat → Nat × Nat
  | significand, 0 => (significand, 0)
  | significand, power + 1 =>
    if significand % 10 = 0 then cancelTens (significand / 10) power else (significand, power + 1)

/-- The greatest power of ten that is applied at once. -/
def greatestPower : Nat := 307

/-- The power from which nothing is left of a number, or it is infinite. -/
def endlessPower : Nat := 342

def hugeNumber : Extended :=
  .ofBinary64 (.nearest false (10 ^ 308) 1)

/-- A significand times a power of ten. A power beyond the greatest is applied in two steps. -/
def timesPower (isNegative : Bool) (significand power : Nat) : Binary64 :=
  let (significand, power) := absorbTens significand power
  let scaled := fun (power : Nat) =>
    ((Extended.ofNat significand).mul (.powerOfTen power)).toBinary64 isNegative
  if power = 0 then .nearest isNegative significand 1
  else if power ≤ greatestPower then scaled power
  else if endlessPower ≤ power then .infinite isNegative
  else
    let opening := Extended.ofBinary64 (scaled (power - 308))
    .nearest isNegative (opening.quotient.1 * hugeNumber.quotient.1) opening.quotient.2

def overPower (isNegative : Bool) (significand power : Nat) : Binary64 :=
  let (significand, power) := cancelTens significand power
  let scaled := fun (power : Nat) =>
    ((Extended.ofNat significand).div (.powerOfTen power)).toBinary64 isNegative
  if power = 0 then .nearest isNegative significand 1
  else if power ≤ greatestPower then scaled power
  else if endlessPower ≤ power then .finite isNegative 0 Binary64.leastExponent
  else
    let opening := Extended.ofBinary64 (scaled (power - 308))
    .nearest isNegative opening.quotient.1 (opening.quotient.2 * hugeNumber.quotient.1)

def read (numeral : Text.Numeral) : Binary64 :=
  let (significand, unread) := readable numeral.mantissa
  let exponent := numeral.exponent + unread
  if significand = 0 then .finite numeral.isNegative 0 Binary64.leastExponent
  else if 0 ≤ exponent then timesPower numeral.isNegative significand exponent.toNat
  else overPower numeral.isNegative significand (-exponent).toNat

/-- Raises a scale in steps of a power of ten as far as it does not exceed a number, and counts the
powers. -/
def climb (x step : Extended) (power : Int) : Nat → Extended × Int → Extended × Int
  | 0, reached => reached
  | rounds + 1, (scale, exponent) =>
    let next := step.mul scale
    if x.lt next then (scale, exponent) else climb x step power rounds (next, exponent + power)

/-- Raises a number in steps of a power of ten until it is no less than a bound, and counts the
powers down. -/
def lift (bound step : Extended) (power : Int) : Nat → Extended × Int → Extended × Int
  | 0, reached => reached
  | rounds + 1, (x, exponent) =>
    if x.lt bound then lift bound step power rounds (x.mul step, exponent - power)
    else (x, exponent)

def roundedPower (power : Nat) : Extended :=
  .ofBinary64 (.nearest false (10 ^ power) 1)

def roundedFraction (power : Nat) : Extended :=
  .ofBinary64 (.nearest false 1 (10 ^ power))

/-- A number that is not zero between one and ten, and the power of ten that it was multiplied by.
-/
def normalize (x : Extended) : Extended × Int :=
  let ten := Extended.ofNat 10
  let hundred := climb x (roundedPower 100) 100 4 (.ofNat 1, 0)
  let (scale, exponent) := climb x ten 1 10 (climb x (roundedPower 10) 10 10 hundred)
  lift (.ofNat 1) ten 1 8
    (lift (roundedFraction 8) (roundedPower 8) 8 50 (x.div scale, exponent))

/-- Half a unit of the fifteenth digit, as the product of two floating-point numbers. -/
def halfUnit : Extended :=
  let first := Extended.ofBinary64 (.nearest false 5 (10 ^ 5))
  let second := roundedFraction 10
  .ofBinary64 (.nearest false (first.quotient.1 * second.quotient.1)
    (first.quotient.2 * second.quotient.2))

def leadingDigits : Nat → Extended → List Nat
  | 0, _ => []
  | count + 1, x =>
    x.floor :: leadingDigits count ((x.sub (.ofNat x.floor)).mul (.ofNat 10))

def writtenDigits : Nat := 15

def decimalForm (significand : Nat) (exponent : Int) : Nat × Int :=
  let (x, power) := normalize ⟨significand, exponent⟩
  let x := x.add halfUnit
  let (x, power) :=
    if x.lt (.ofNat 10) then (x, power) else (x.mul (roundedFraction 1), power + 1)
  (Text.ofDigits (leadingDigits writtenDigits x), power - (writtenDigits - 1))

/-- Numbers are written with a digit after the point before an exponent too. -/
def numeralStyle : Text.DecimalStyle where
  leastPositional := -4
  greatestPositional := 14
  pointBeforeExponent := true
  signedZero := false
  infinity := "Inf"
  noNumber := ""

def write : Binary64 → String
  | .notANumber => numeralStyle.noNumber
  | .infinite isNegative => Text.signed isNegative numeralStyle.infinity.toList
  | .finite isNegative 0 _ => numeralStyle.zero isNegative
  | .finite isNegative significand exponent =>
    let (mantissa, power) := decimalForm significand exponent
    numeralStyle.layOut isNegative mantissa power

end QuorumTree.Store.Numeral
