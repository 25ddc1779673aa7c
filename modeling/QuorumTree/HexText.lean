import QuorumTree.Datum
import QuorumTree.Text.Parts

/-!
Hexadecimal text as people type it and the store keeps it: blanks around it and a leading `0x` do
not matter, and either case will do. Reading refuses an odd number of digits before it looks at the
digits.
-/

namespace QuorumTree.Hex

def bare (text : String) : Except Fault (List Char) :=
  let digits := bareDigits text.toList
  if digits.length % 2 = 1 then .error (.oddHex text)
  else if digits.all isLowerDigit then .ok digits
  else .error (.badHex text)

def read (text : String) : Except Fault Bytes :=
  (bare text).map pairBytes

def readHash (text : String) : Except Fault Bytes32 := do
  let bytes ← read text
  match Bytes32.ofBytes? bytes with
  | some hash => .ok hash
  | none => .error (.hashWidth bytes.length text)

end QuorumTree.Hex

namespace QuorumTree.Datum

def toText : Datum → Except Fault String
  | text value => .ok value
  | value => .error (.textExpected value.kindLabel)

def toHexDigits (value : Datum) : Except Fault String := do
  return String.ofList (← Hex.bare (← value.toText))

def readHex (value : Datum) : Except Fault Bytes :=
  value.toText >>= Hex.read

def readHash (value : Datum) : Except Fault Bytes32 :=
  value.toText >>= Hex.readHash

/-- The bytes that a text given as a value spells with blanks between them. -/
def readSpacedHex : Datum → Except Fault Bytes
  | text value => (Hex.decodeSpaced value).mapError .strayHex
  | _ => .error .wrongType

def writeHex : Datum → Except Fault String
  | text value => (Hex.bare value).map String.ofList
  | bytes value => .ok (Hex.encode value)
  | _ => .error .bytesExpected

/-- The items of a value that holds some. A text holds its characters, each as a text. -/
def items : Datum → Except Fault (List Datum)
  | list items => .ok items
  | text value => .ok (value.toList.map fun c => text (String.singleton c))
  | bytes value => .ok (value.map fun b => int b.toNat)
  | proof _ steps => .ok (steps.map fun (side, sibling) => step side sibling)
  | _ => .error .wrongType

/-- The parts of a text between commas, less the blank ones. -/
def commaParts (text : String) : List String :=
  (Text.parts ',' text).filter fun part => !(Text.strip part).isEmpty

/-- The texts of a list of keys: the items of a list, or the parts of a text between commas. -/
def keyTexts : Datum → Except Fault (List Datum)
  | text value => .ok ((commaParts value).map text)
  | value => value.items

def readKeys (value : Datum) : Except Fault (List PublicKey) := do
  (← value.keyTexts).mapM fun item => do PublicKey.ofBytes (← item.readHex)

end QuorumTree.Datum
