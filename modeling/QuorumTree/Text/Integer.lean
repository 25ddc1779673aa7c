import QuorumTree.Power
import QuorumTree.Text.Blank
import QuorumTree.Text.Digit

/-!
Reading a whole number from text: blanks around it, a sign, and decimal digits of any script with
single underscores between them. Digits are counted before anything is said of what follows them, so
a text with too many digits is too long whether it spells a number or not.
-/

namespace QuorumTree.Text

/-- The digit values of a digit string, where an underscore may stand between two digits. -/
def digitValues? : List Char → Option (List Nat)
  | [] => none
  | [c] => (decimalValue? c).map ([·])
  | c :: '_' :: rest => do return (← decimalValue? c) :: (← digitValues? rest)
  | c :: rest => do return (← decimalValue? c) :: (← digitValues? rest)

def ofDigits (digits : List Nat) : Nat :=
  digits.foldl (fun n d => 10 * n + d) 0

def splitSign : List Char → Bool × List Char
  | '-' :: rest => (true, rest)
  | '+' :: rest => (false, rest)
  | cs => (false, cs)

/-- The most digits that a whole number is read from or written with. -/
def maxDigits : Nat := 4300

inductive IntegerReading
  | number (value : Int)
  | tooLong (digits : Nat)
  | malformed
  deriving DecidableEq

def isDigitMark (c : Char) : Bool :=
  c == '_' || (decimalValue? c).isSome

def IntegerReading.of (text : String) : IntegerReading :=
  let (isNegative, unsigned) := splitSign (stripChars isNumberBlank text.toList)
  match digitValues? (unsigned.takeWhile isDigitMark) with
  | none => malformed
  | some digits =>
    if maxDigits < digits.length then tooLong digits.length
    else if !(unsigned.dropWhile isDigitMark).isEmpty then malformed
    else number (if isNegative then -(ofDigits digits : Int) else ofDigits digits)

def integer? (text : String) : Option Int :=
  match IntegerReading.of text with
  | .number value => some value
  | _ => none

def isWritable (n : Int) : Bool :=
  n.natAbs < 10 ^ maxDigits

end QuorumTree.Text
