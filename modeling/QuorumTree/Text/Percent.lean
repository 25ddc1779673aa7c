import QuorumTree.Text.Hex
import QuorumTree.Text.Parts
import QuorumTree.Text.Utf8

/-!
Percent encoding: a percent sign and two hexadecimal digits stand for a byte. In texts the bytes are
those of UTF-8, and only what stands between two characters outside ASCII is read together.
-/

namespace QuorumTree.Text

/-- The byte that a text opens with as a percent sign and two digits. -/
def escapedByte? : List Char → Option UInt8
  | '%' :: a :: b :: _ => do return Hex.byteOf (← Hex.digitValue? a) (← Hex.digitValue? b)
  | _ => none

/-- The bytes of ASCII characters. A percent sign without two digits stands for itself. -/
def percentBytes : List Char → Bytes
  | [] => []
  | c :: rest =>
    match escapedByte? (c :: rest) with
    | some b => b :: percentBytes (rest.drop 2)
    | none => UInt8.ofNat c.toNat :: percentBytes rest
termination_by cs => cs.length
decreasing_by all_goals simp only [List.length_cons, List.length_drop]; omega

def isAscii (c : Char) : Bool :=
  c.toNat < 0x80

def percentDecode (cs : List Char) : List Char :=
  (cs.splitBy fun a b => isAscii a == isAscii b).flatMap fun run =>
    if run.all isAscii then decodeUtf8 (percentBytes run) else run

/-- The name and the value on both sides of the first equals sign; a value cannot be empty. -/
def splitField? (cs : List Char) : Option (List Char × List Char) :=
  match cs.dropWhile (· ≠ '=') with
  | _ :: c :: value => some (cs.takeWhile (· ≠ '='), c :: value)
  | _ => none

/-- The text of a name or a value in a query, where a plus sign stands for a blank. -/
def fieldText (cs : List Char) : String :=
  String.ofList (percentDecode (cs.map fun c => if c = '+' then ' ' else c))

/-- The fields of a query, in order: names and values between ampersands. -/
def queryFields (cs : List Char) : List (String × String) :=
  (splitChars '&' cs).filterMap fun part =>
    (splitField? part).map fun (name, value) => (fieldText name, fieldText value)

end QuorumTree.Text
