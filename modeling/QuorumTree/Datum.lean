import QuorumTree.Machine
import QuorumTree.PublicKey
import QuorumTree.Quorum.Threshold

/-!
Untrusted values. What comes from outside may be of any kind, and the operations that take such
values say which kinds they accept. The module also holds how a value is shown in the wording of a
refusal, and which byte string a value stands for.
-/

namespace QuorumTree

/-- A value of any kind. A step of a proof stands on its own only where a proof is taken for a
sequence; in the proof it is a pair of a side and a sibling, and the steps are held either in a
fixed sequence or in a list that could still change. -/
inductive Datum
  | null
  | number (value : Number)
  | text (value : String)
  | bytes (value : Bytes)
  | list (items : List Datum)
  | key (value : PublicKey)
  | threshold (value : StatedThreshold)
  | step (side sibling : Datum)
  | proof (isFixed : Bool) (steps : List (Datum × Datum))
  deriving Inhabited

namespace Datum

@[match_pattern] abbrev int (value : Int) : Datum := number (.whole value)

@[match_pattern] abbrev bool (value : Bool) : Datum := number (.truth value)

@[match_pattern] abbrev real (value : Binary64) : Datum := number (.real value)

def kindLabel : Datum → String
  | null => "<class 'NoneType'>"
  | bool _ => "<class 'bool'>"
  | int _ => "<class 'int'>"
  | real _ => "<class 'float'>"
  | text _ => "<class 'str'>"
  | bytes _ => "<class 'bytes'>"
  | list _ => "<class 'list'>"
  | key _ => "<class 'bitmast.core.keys.PublicKey'>"
  | threshold _ => "<class 'bitmast.core.types.Threshold'>"
  | step _ _ => "<class 'bitmast.core.proofs.ProofStep'>"
  | proof _ _ => "<class 'bitmast.core.proofs.InclusionProof'>"

def bracket (isFixed : Bool) (items : List String) : String :=
  let inner := String.intercalate ", " items
  if isFixed then "(" ++ inner ++ (if items.length = 1 then ",)" else ")")
  else "[" ++ inner ++ "]"

mutual

def shown : Datum → String
  | null => "None"
  | number value => value.shown
  | text value => Text.quoted value
  | bytes value => Text.quotedBytes value
  | list items => bracket false (shownItems items)
  | key value => "PublicKey(" ++ value.hex ++ ")"
  | threshold value => s!"Threshold(m={value.m}, n={value.n})"
  | step side sibling => "ProofStep(sibling=" ++ sibling.shown ++ ", side=" ++ side.shown ++ ")"
  | proof isFixed steps => "InclusionProof(steps=" ++ bracket isFixed (shownSteps steps) ++ ")"

def shownItems : List Datum → List String
  | [] => []
  | item :: items => item.shown :: shownItems items

def shownSteps : List (Datum × Datum) → List String
  | [] => []
  | (side, sibling) :: steps =>
    ("ProofStep(sibling=" ++ sibling.shown ++ ", side=" ++ side.shown ++ ")") :: shownSteps steps

end

mutual

/-- The numbers that are shown when a value is. -/
def numbers : Datum → List Number
  | number value => [value]
  | list items => itemNumbers items
  | threshold value => [value.m, value.n]
  | step side sibling => side.numbers ++ sibling.numbers
  | proof _ steps => stepNumbers steps
  | null | text _ | bytes _ | key _ => []

def itemNumbers : List Datum → List Number
  | [] => []
  | item :: items => item.numbers ++ itemNumbers items

def stepNumbers : List (Datum × Datum) → List Number
  | [] => []
  | (side, sibling) :: steps => side.numbers ++ sibling.numbers ++ stepNumbers steps

end

/-- How a value is shown where it is part of a sentence: texts and thresholds stand bare. -/
def display : Datum → String
  | text value => value
  | threshold value => toString value
  | value => value.shown

mutual

/-- Whether two values are equal: numbers by value, and what holds others item by item. -/
def same : Datum → Datum → Bool
  | null, null => true
  | number a, number b => a.same b
  | text a, text b => a == b
  | bytes a, bytes b => a == b
  | list a, list b => areSame a b
  | key a, key b => a == b
  | threshold a, threshold b => a.m.same b.m && a.n.same b.n
  | step a b, step c d => a.same c && b.same d
  | proof a steps, proof b others => a == b && areSameSteps steps others
  | _, _ => false

def areSame : List Datum → List Datum → Bool
  | [], [] => true
  | a :: rest, b :: others => a.same b && areSame rest others
  | _, _ => false

def areSameSteps : List (Datum × Datum) → List (Datum × Datum) → Bool
  | [], [] => true
  | (a, b) :: rest, (c, d) :: others => a.same c && b.same d && areSameSteps rest others
  | _, _ => false

end

def toNumber? : Datum → Option Number
  | number value => some value
  | _ => none

def toNumber (value : Datum) : Except Fault Number :=
  match value.toNumber? with
  | some found => .ok found
  | none => .error .wrongType

def toOptionalNumber : Datum → Except Fault (Option Number)
  | null => .ok none
  | value => value.toNumber.map some

/-- The whole number that a value counts as; truth values count as one and zero. -/
def toInt? (value : Datum) : Option Int :=
  value.toNumber?.bind Number.toInt?

def toInt (value : Datum) : Except Fault Int :=
  match value.toInt? with
  | some n => .ok n
  | none => .error .wrongType

def toByte (value : Datum) : Except Fault UInt8 :=
  match value.toInt? with
  | some n => if 0 ≤ n ∧ n < 256 then .ok (UInt8.ofNat n.toNat) else .error .byteRange
  | none => .error .wrongType

variable [Machine]

/-- The length of a byte string of the given count of zeros, if one can be held. -/
def zeroCount (n : Int) : Except Fault Nat :=
  if 2 ^ 63 ≤ n ∨ n < -(2 ^ 63) then .error .countTooWide
  else if n < 0 then .error .negativeCount
  else if 2 ^ 63 - 34 < n then .error .countTooWide
  else if Machine.holdsZeros n.toNat then .ok n.toNat
  else .error .outOfMemory

/-- The byte string that a value stands for: itself, a key's compressed form, the bytes listed, or
as many zeros as a number says. -/
def toBytes : Datum → Except Fault Bytes
  | bytes value => .ok value
  | key value => .ok value.bytes
  | list items => items.mapM toByte
  | int n => (zeroCount n).map (List.replicate · 0)
  | bool value => .ok (List.replicate value.toNat 0)
  | proof _ [] => .ok []
  | _ => .error .wrongType

def byteLength : Datum → Except Fault Nat
  | int n => zeroCount n
  | value => value.toBytes.map (·.length)

def size? : Datum → Option Nat
  | text value => some value.length
  | bytes value => some value.length
  | list items => some items.length
  | proof _ steps => some steps.length
  | _ => none

end Datum

namespace PublicKey

def ofHexDatum : Datum → Except Fault PublicKey
  | .text text => ofHex text
  | _ => .error .wrongType

def ofCompressedDatum : Datum → Except Fault PublicKey
  | .bytes bytes => ofCompressed bytes
  | value => .error (.keyType value.kindLabel)

variable [Machine]

def ofByteDatum (value : Datum) : Except Fault PublicKey := do
  let length ← value.byteLength
  if length = 32 ∨ length = 33 ∨ length = 65 then ofBytes (← value.toBytes)
  else .error (.keyLength length)

/-- The key that a value denotes: a key itself, its hexadecimal text, or its bytes. -/
def ofDatum : Datum → Except Fault PublicKey
  | .key key => .ok key
  | .text text => ofHex text
  | value => ofByteDatum value

/-- The key of a secret number, which has to come as bytes. Another value that bytes can be made of
is refused for its number first. -/
def ofSecretDatum : Datum → Except Fault PublicKey
  | .bytes secret => ofSecret secret
  | .int _ | .bool _ => .error .wrongType
  | value => do
    let _ ← ofSecret (← value.toBytes)
    .error .wrongType

end PublicKey

end QuorumTree
