import QuorumTree.Datum
import QuorumTree.Proof.Codec

/-!
Trees and proofs from untrusted values. Verification answers for values of every kind; the other
operations refuse what they cannot use.
-/

namespace QuorumTree

namespace Datum

def toHash? : Datum → Option Bytes32
  | bytes value => Bytes32.ofBytes? value
  | _ => none

def toSide? : Datum → Option Side
  | text value =>
    if value = "left" then some .left
    else if value = "right" then some .right
    else none
  | _ => none

def toStep? (step : Datum × Datum) : Option Step := do
  return ⟨← toSide? step.1, ← toHash? step.2⟩

/-- The proof that a value is or encodes, when it is well formed. -/
def toProof? : Datum → Option InclusionProof
  | bytes data => (InclusionProof.decode data).toOption
  | proof true steps =>
    if steps.length ≤ maxProofDepth then (steps.mapM toStep?).map InclusionProof.mk else none
  | _ => none

/-- How many leaves a value says there are; the absent value sets no condition. -/
def toLeafCount? : Datum → Option (Option Int)
  | null => some none
  | value => value.toInt?.map some

end Datum

/-- Whether a proof leads from a leaf to a root, for values of any kind. -/
def verifyData (leaf proof root leafCount : Datum) : Bool :=
  match proof.toProof?, leaf.toHash?, root.toHash?, leafCount.toLeafCount? with
  | some proof, some leaf, some root, some leafCount => proof.verify leaf root leafCount
  | _, _, _, _ => false

/-- Whether a proof shows that the leaf of a key is under a root, for values of any kind. -/
def verifySpend (root key proof leafCount : Datum) : Bool :=
  match key with
  | .key key => verifyData (.bytes (leafHash key.xOnly).bytes) proof root leafCount
  | _ => false

def branchOfDatum (sibling : Datum) (node : Bytes) (siblingFirst : Bool) : Except Fault Bytes :=
  if !siblingFirst && node.length ≠ 32 then .error .branchWidth
  else match sibling.size? with
    | none => .error .wrongType
    | some size =>
      if size ≠ 32 ∨ node.length ≠ 32 then .error .branchWidth
      else match sibling with
        | .bytes sibling =>
          (if siblingFirst then branchHashOf sibling node else branchHashOf node sibling).map
            (·.bytes)
        | _ => .error .wrongType

def foldSteps : Bytes → List (Datum × Datum) → Except Fault Bytes
  | node, [] => .ok node
  | node, (side, sibling) :: steps =>
    match side.toSide? with
    | some .left => branchOfDatum sibling node true >>= (foldSteps · steps)
    | some .right => branchOfDatum sibling node false >>= (foldSteps · steps)
    | none => .error (.telling side.numbers (.stepSide side.shown))

/-- The root that a proof leads to from a leaf. Nothing is hashed for a proof without steps, so the
leaf may then be any byte string. -/
def rootFromData [Machine] (leaf proof : Datum) : Except Fault Bytes := do
  let leaf ← leaf.toBytes
  match proof with
  | .proof _ steps => foldSteps leaf steps
  | _ => .error .noSuchField

def siblingBytes : Datum × Datum → Except Fault Bytes
  | (_, .bytes sibling) => .ok sibling
  | _ => .error .wrongType

/-- The bytes of a proof, in which every side but the left one counts as right. -/
def encodeData : Datum → Except Fault Bytes
  | .proof _ steps => do
    let siblings ← steps.mapM siblingBytes
    return layOut siblings (steps.map fun step => step.1.toSide? == some .left)
  | _ => .error .noSuchField

def proofOfHexDatum : Datum → Except Fault InclusionProof
  | .text text => InclusionProof.ofHex text
  | _ => .error .wrongType

def isProof (value : Datum) (proof : InclusionProof) : Bool :=
  match value with
  | .proof true steps => (steps.mapM Datum.toStep?).map InclusionProof.mk == some proof
  | _ => false

def leavesOfWidths [Machine] : Nat → List (Datum × Nat) → Except Fault (List Bytes32)
  | _, [] => .ok []
  | index, (value, width) :: rest => do
    if width ≠ 32 then .error (.leafWidth index width)
    match Bytes32.ofBytes? (← value.toBytes) with
    | some leaf => return leaf :: (← leavesOfWidths (index + 1) rest)
    | none => .error (.leafWidth index width)

namespace MerkleTree

def ofData [Machine] (values : List Datum) : Except Fault MerkleTree := do
  let widths ← values.mapM Datum.byteLength
  ofLeaves (← leavesOfWidths 0 (values.zip widths))

def prove (tree : MerkleTree) (index : Datum) : Except Fault InclusionProof :=
  match index.toInt?.bind fun n => if 0 ≤ n then tree.prove? n.toNat else none with
  | some proof => .ok proof
  | none => .error (.telling index.numbers (.leafIndexRange index.display tree.leafCount))

def nodeOfData (tree : MerkleTree) (level index : Datum) : Except Fault MerkleNode := do
  let level ← level.toNumber
  let nodes ← tree.levelAt level
  nodeIn nodes level (← index.toNumber)

def leafOfData (tree : MerkleTree) (index : Datum) : Except Fault Bytes32 := do
  tree.leaf (← index.toNumber)

def childrenOfData (tree : MerkleTree) (level index : Datum) :
    Except Fault (Option (MerkleNode × MerkleNode)) := do
  match ← tree.levelUnder (← level.toNumber) with
  | none => return none
  | some (below, nodes) => some <$> tree.childrenIn below nodes (← index.toNumber)

end MerkleTree

def CompactSize.ofDatum (length : Datum) : Except Fault Bytes :=
  length.toNumber >>= ofLength

/-- Reads the number at a position of any kind. A position that counts nothing names no byte, but
may be seen to lie beyond them all. -/
def CompactSize.decodeAtData (data : Bytes) (offset : Datum) : Except Fault (Nat × Int) := do
  let position ← offset.toNumber
  if (Number.whole data.length).le position then .error .truncatedSize
  decodeAt data (← offset.toInt)

def treeDepthOfData (leafCount : Datum) : Except Fault Nat :=
  leafCount.toNumber >>= treeDepthOf

end QuorumTree
