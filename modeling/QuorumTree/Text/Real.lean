import QuorumTree.Text.Decimal

/-!
Whether a text spells a floating-point number: blanks around it, a sign, and a numeral in digits of
any script with single underscores between them, or a word for what has no digits.
-/

namespace QuorumTree.Text

def asciiDigit (c : Char) : Char :=
  match decimalValue? c with
  | some digit => Char.ofNat (0x30 + digit)
  | none => c

/-- The characters less the underscores, each of which has to stand between two digits. The flag
says whether a digit came before. -/
def dropUnderscores? : Bool → List Char → Option (List Char)
  | _, [] => some []
  | afterDigit, c :: rest =>
    if c = '_' then
      if afterDigit && rest.head?.any Char.isDigit then dropUnderscores? false rest else none
    else (dropUnderscores? c.isDigit rest).map (c :: ·)

/-- The words for what has no digits. -/
def realWords : List String := ["inf", "infinity", "nan"]

def isReal (text : String) : Bool :=
  let cs := (stripChars isNumberBlank text.toList).map asciiDigit
  match dropUnderscores? false cs with
  | none => false
  | some cs =>
    (Numeral.read? cs).isSome ||
      realWords.contains (String.ofList ((splitSign cs).2.map Char.toLower))

end QuorumTree.Text
