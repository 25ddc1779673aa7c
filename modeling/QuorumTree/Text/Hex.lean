import QuorumTree.Bytes
import QuorumTree.Text.Blank

/-!
Hexadecimal text. Bytes are written as two lower-case digits each. Two readers differ in what they
let through: the spaced one takes blanks between the digit pairs, the plain one takes blanks
around the whole text and a leading `0x`.
-/

namespace QuorumTree.Hex

def digitChar (n : Nat) : Char :=
  if n < 10 then Char.ofNat (0x30 + n) else Char.ofNat (0x57 + n)

def encodeChars (bytes : Bytes) : List Char :=
  bytes.flatMap fun b => [digitChar (b.toNat / 16), digitChar (b.toNat % 16)]

def encode (bytes : Bytes) : String :=
  String.ofList (encodeChars bytes)

/-- The value of a hexadecimal digit of either case. -/
def digitValue? (c : Char) : Option Nat :=
  let n := c.toNat
  if 0x30 ≤ n ∧ n ≤ 0x39 then some (n - 0x30)
  else if 0x61 ≤ n ∧ n ≤ 0x66 then some (n - 0x57)
  else if 0x41 ≤ n ∧ n ≤ 0x46 then some (n - 0x37)
  else none

def byteOf (high low : Nat) : UInt8 :=
  UInt8.ofNat (16 * high + low)

/-- Reads digit pairs with blanks between them, or tells the place of the first character that
does not belong; `position` is the place of the first character given. -/
def decodePairs : Nat → List Char → Except Nat Bytes
  | _, [] => .ok []
  | position, c :: rest =>
    if Text.isAsciiBlank c then decodePairs (position + 1) rest
    else match digitValue? c, rest with
      | none, _ => .error position
      | some _, [] => .error (position + 1)
      | some high, d :: rest =>
        match digitValue? d with
        | none => .error (position + 1)
        | some low => do return byteOf high low :: (← decodePairs (position + 2) rest)

/-- Reads spaced digit pairs. A character outside ASCII is refused before any other. -/
def decodeSpaced (text : String) : Except Nat Bytes :=
  let cs := text.toList
  match cs.findIdx? fun c => 0x80 ≤ c.toNat with
  | some position => .error position
  | none => decodePairs 0 cs

/-- A character in lower case, as far as hexadecimal text needs it: a capital I with a dot above
becomes two characters, and no letter outside ASCII becomes a hexadecimal digit. -/
def lowerChar (c : Char) : List Char :=
  if c.toNat = 0x130 then ['i', Char.ofNat 0x307] else [c.toLower]

def dropMarker : List Char → List Char
  | '0' :: 'x' :: rest => rest
  | cs => cs

/-- The bare lower-case digits of a text: no blanks around them and no leading `0x`. -/
def bareDigits (cs : List Char) : List Char :=
  dropMarker ((Text.stripChars Text.isBlank cs).flatMap lowerChar)

def isLowerDigit (c : Char) : Bool :=
  (0x30 ≤ c.toNat && c.toNat ≤ 0x39) || (0x61 ≤ c.toNat && c.toNat ≤ 0x66)

/-- The bytes of digits given in pairs; reading stops where no pair is left. -/
def pairBytes : List Char → Bytes
  | c :: d :: rest =>
    byteOf ((digitValue? c).getD 0) ((digitValue? d).getD 0) :: pairBytes rest
  | _ => []

end QuorumTree.Hex
