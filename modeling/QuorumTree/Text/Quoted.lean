import QuorumTree.Bytes
import QuorumTree.Text.Printable

/-!
Quoted text. A text or byte string is shown between quotes: single quotes, unless it holds a single
quote and no double one. What cannot be shown as itself is escaped.
-/

namespace QuorumTree.Text

/-- The lower-case hexadecimal digits of `n`, at least `width` of them. -/
def hexPadded (width n : Nat) : String :=
  let digits := Nat.toDigits 16 n
  String.ofList (List.replicate (width - digits.length) '0' ++ digits)

def numericEscape (code : Nat) : String :=
  if code ≤ 0xff then "\\x" ++ hexPadded 2 code
  else if code ≤ 0xffff then "\\u" ++ hexPadded 4 code
  else "\\U" ++ hexPadded 8 code

def escapeChar (quote c : Char) : String :=
  if c = quote ∨ c = '\\' then String.ofList ['\\', c]
  else if c = '\t' then "\\t"
  else if c = '\n' then "\\n"
  else if c = '\r' then "\\r"
  else if isPrintable c then String.singleton c
  else numericEscape c.toNat

/-- The quote that a text holding these characters is shown between. -/
def quoteFor (cs : List Char) : Char :=
  if cs.contains '\'' && !cs.contains '"' then '"' else '\''

def quoted (text : String) : String :=
  let quote := quoteFor text.toList
  String.singleton quote ++ String.join (text.toList.map (escapeChar quote)) ++
    String.singleton quote

def cut (length : Nat) (text : String) : String :=
  String.ofList (text.toList.take length)

/-- A byte string between quotes, ASCII as text and every other byte by number. -/
def quotedBytes (bytes : Bytes) : String :=
  let cs := bytes.map fun b => Char.ofNat b.toNat
  let quote := quoteFor cs
  let shown := cs.map fun c => if c.toNat < 0x7f then escapeChar quote c else numericEscape c.toNat
  "b" ++ String.singleton quote ++ String.join shown ++ String.singleton quote

/-- Numbers between round brackets; a single one is followed by a comma. -/
def bracketed : List Int → String
  | [] => "()"
  | [i] => "(" ++ toString i ++ ",)"
  | is => "(" ++ String.intercalate ", " (is.map toString) ++ ")"

end QuorumTree.Text
