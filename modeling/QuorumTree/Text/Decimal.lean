import QuorumTree.Text.Integer

/-!
Decimal numerals: digits with a point and an exponent. They are read in one grammar and laid out in
a style, which says how far positional notation reaches and what stands for the values that have no
digits.
-/

namespace QuorumTree.Text

/-- A numeral as it is read: a whole number of a power of ten. It is plain when it was written with
neither a point nor an exponent. -/
structure Numeral where
  isNegative : Bool
  mantissa : Nat
  exponent : Int
  isPlain : Bool
  deriving DecidableEq

def ofAsciiDigits (digits : List Char) : Nat :=
  ofDigits (digits.map fun c => c.toNat - 0x30)

/-- The power of ten that stands after the digits of a numeral; none is the zeroth power. -/
def readExponent? : List Char → Option Int
  | [] => some 0
  | mark :: rest =>
    let (isNegative, digits) := splitSign rest
    if (mark = 'e' ∨ mark = 'E') ∧ !digits.isEmpty ∧ digits.all Char.isDigit then
      some (if isNegative then -(ofAsciiDigits digits : Int) else ofAsciiDigits digits)
    else none

/-- Reads a sign, digits with a point anywhere among them or with none, and an exponent. A numeral
has at least one digit before its exponent. -/
def Numeral.read? (cs : List Char) : Option Numeral :=
  let (isNegative, unsigned) := splitSign cs
  let whole := unsigned.takeWhile Char.isDigit
  let rest := unsigned.dropWhile Char.isDigit
  let fraction := if rest.head? = some '.' then rest.tail.takeWhile Char.isDigit else []
  let afterFraction := if rest.head? = some '.' then rest.tail.dropWhile Char.isDigit else rest
  if whole.isEmpty && fraction.isEmpty then none
  else (readExponent? afterFraction).map fun exponent =>
    ⟨isNegative, ofAsciiDigits (whole ++ fraction), exponent - fraction.length, rest.isEmpty⟩

/-- How numbers are laid out: positionally while the exponent of the first digit lies in a range,
and with an exponent otherwise. -/
structure DecimalStyle where
  leastPositional : Int
  greatestPositional : Int
  pointBeforeExponent : Bool
  signedZero : Bool
  infinity : String
  noNumber : String

/-- The digits of a whole number less the zeros it ends in. -/
def significantDigits (n : Nat) : List Char :=
  ((Nat.toDigits 10 n).reverse.dropWhile (· == '0')).reverse

/-- Digits with the point after the first `point` of them, and zeros where digits are wanting. -/
def positional (digits : List Char) (point : Int) : List Char :=
  if point ≤ 0 then '0' :: '.' :: (List.replicate (-point).toNat '0' ++ digits)
  else
    let whole := digits.take point.toNat
    let fraction := digits.drop point.toNat
    whole ++ List.replicate (point.toNat - whole.length) '0' ++ '.' ::
      (if fraction.isEmpty then ['0'] else fraction)

/-- Digits with the point after the first and an exponent of two digits or more. -/
def scientific (needsPoint : Bool) (digits : List Char) (exponent : Int) : List Char :=
  let power := Nat.toDigits 10 exponent.natAbs
  let fraction := digits.drop 1
  let fraction := if fraction.isEmpty && needsPoint then ['0'] else fraction
  digits.take 1 ++ (if fraction.isEmpty then [] else '.' :: fraction) ++
    ['e', if exponent < 0 then '-' else '+'] ++ List.replicate (2 - power.length) '0' ++ power

def signed (isNegative : Bool) (cs : List Char) : String :=
  String.ofList (if isNegative then '-' :: cs else cs)

/-- The text of `mantissa * 10 ^ exponent` for a mantissa that is not zero. -/
def DecimalStyle.layOut (style : DecimalStyle) (isNegative : Bool) (mantissa : Nat)
    (exponent : Int) : String :=
  let digits := significantDigits mantissa
  let first := (Nat.toDigits 10 mantissa).length + exponent - 1
  signed isNegative <|
    if style.leastPositional ≤ first ∧ first ≤ style.greatestPositional then
      positional digits (first + 1)
    else scientific style.pointBeforeExponent digits first

def DecimalStyle.zero (style : DecimalStyle) (isNegative : Bool) : String :=
  signed (isNegative && style.signedZero) ['0', '.', '0']

end QuorumTree.Text
