import QuorumTree.Hash.Tagged
import QuorumTree.PublicKey

/-!
Key aggregation. The aggregate of a list of keys is their sum with each key weighted by a
coefficient that hangs on the whole list, so no member can choose its key to cancel the others. The
first key that differs from the one at the head has the coefficient one.
-/

namespace QuorumTree

/-- An aggregate key and the coefficients it was made with, in the order of the keys. -/
structure Aggregate where
  key : PublicKey
  coefficients : List Int
  deriving DecidableEq

/-- A way to aggregate an ordered list of keys. -/
abbrev Primitive := List PublicKey → Except Fault Aggregate

namespace Tag

/-- The tag of key lists, `KeyAgg list`. -/
def keyList : Bytes := [0x4b, 0x65, 0x79, 0x41, 0x67, 0x67, 0x20, 0x6c, 0x69, 0x73, 0x74]

/-- The tag of coefficients, `KeyAgg coefficient`. -/
def keyCoefficient : Bytes :=
  [0x4b, 0x65, 0x79, 0x41, 0x67, 0x67, 0x20, 0x63, 0x6f, 0x65, 0x66, 0x66, 0x69, 0x63, 0x69,
   0x65, 0x6e, 0x74]

end Tag

def keyListHash (keys : List PublicKey) : Bytes32 :=
  taggedHash Tag.keyList (keys.flatMap PublicKey.bytes)

/-- The first key that differs from the one at the head. -/
def secondKey? : List PublicKey → Option PublicKey
  | [] => none
  | first :: rest => rest.find? (· ≠ first)

def coefficientHash (listHash : Bytes) (key : PublicKey) : Bytes32 :=
  taggedHash Tag.keyCoefficient (listHash ++ key.bytes)

def keyCoefficient (listHash : Bytes) (key : PublicKey) (second : Option PublicKey) : Nat :=
  if some key = second then 1 else (coefficientHash listHash key).toNat % groupOrder

def keyCoefficients (keys : List PublicKey) : List Nat :=
  keys.map fun key => keyCoefficient (keyListHash keys).bytes key (secondKey? keys)

/-- A key times its coefficient; nothing is multiplied by one. -/
def weightedPoint (key : PublicKey) (coefficient : Nat) : Point :=
  if coefficient = 1 then key.toPoint else key.toPoint.scale coefficient

/-- The sum of keys times their coefficients; a single product is its own sum. -/
def weightedSum (keys : List PublicKey) (coefficients : List Nat) : Point :=
  match List.zipWith weightedPoint keys coefficients with
  | [term] => term
  | terms => Point.sum terms

/-- The keys that a list holds more than once, in ascending order. -/
def repeatedKeys (keys : List PublicKey) : List PublicKey :=
  ((keys.filter fun key => 1 < keys.count key).mergeSort PublicKey.le).eraseDups

/-- The key of a weighted sum, where no coefficient is zero and the sum is finite. -/
def weightedKey? (keys : List PublicKey) (coefficients : List Nat) : Option PublicKey :=
  if 0 ∈ coefficients then none else PublicKey.ofPoint? (weightedSum keys coefficients)

/-- The aggregate of an ordered list of distinct keys. -/
def musig : Primitive := fun keys =>
  if keys.isEmpty then .error .noKeys
  else if ¬ keys.Nodup then .error (.repeatedKeys ((repeatedKeys keys).map PublicKey.bytes))
  else
    let coefficients := keyCoefficients keys
    match weightedKey? keys coefficients with
    | some key => .ok ⟨key, coefficients.map Int.ofNat⟩
    | none => .error (.vanishingSum keys.length)

end QuorumTree
