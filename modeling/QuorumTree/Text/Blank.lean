/-!
Blank characters, and taking them off both ends of a text. Three classes are told apart: every
blank, the blanks that may surround a number, and the blanks of ASCII.
-/

namespace QuorumTree.Text

/-- The space and the controls from the tab to the carriage return. -/
def isAsciiBlank (c : Char) : Bool :=
  c.toNat == 0x20 || (9 ≤ c.toNat && c.toNat ≤ 13)

/-- The blanks outside ASCII: separators of every kind and the next-line control. -/
def isWideBlank (c : Char) : Bool :=
  let n := c.toNat
  n == 0x85 || n == 0xa0 || n == 0x1680 || (0x2000 ≤ n && n ≤ 0x200a) || n == 0x2028 ||
    n == 0x2029 || n == 0x202f || n == 0x205f || n == 0x3000

/-- The blanks that may stand before and after the digits of a number. -/
def isNumberBlank (c : Char) : Bool :=
  isAsciiBlank c || isWideBlank c

/-- Every blank: those around numbers and the four ASCII separators of files and records. -/
def isBlank (c : Char) : Bool :=
  isNumberBlank c || (0x1c ≤ c.toNat && c.toNat ≤ 0x1f)

def stripChars (drop : Char → Bool) (cs : List Char) : List Char :=
  ((cs.dropWhile drop).reverse.dropWhile drop).reverse

def strip (text : String) : String :=
  String.ofList (stripChars isBlank text.toList)

end QuorumTree.Text
