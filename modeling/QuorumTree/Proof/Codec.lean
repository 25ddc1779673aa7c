import QuorumTree.Proof.Basic

/-!
Proofs as bytes: the number of steps as a compact size, the siblings, and one bit a step that is set
when the sibling is on the left. Bits are packed from the least significant one up, and those that
fill the last byte are zero.
-/

namespace QuorumTree

/-- The number whose binary digits are given, least significant first. -/
def ofBits : List Bool → Nat
  | [] => 0
  | bit :: bits => bit.toNat + 2 * ofBits bits

/-- The low binary digits of a number, least significant first. -/
def lowBits : Nat → Nat → List Bool
  | 0, _ => []
  | count + 1, n => (n % 2 == 1) :: lowBits count (n / 2)

/-- Bits packed into the given number of bytes. -/
def packBits : Nat → List Bool → Bytes
  | 0, _ => []
  | count + 1, bits => UInt8.ofNat (ofBits (bits.take 8)) :: packBits count (bits.drop 8)

def unpackBits (bytes : Bytes) : List Bool :=
  bytes.flatMap fun b => lowBits 8 b.toNat

def bitWidth (count : Nat) : Nat :=
  (count + 7) / 8

def layOut (siblings : List Bytes) (lefts : List Bool) : Bytes :=
  CompactSize.encode lefts.length ++ siblings.flatten ++ packBits (bitWidth lefts.length) lefts

/-- The first hashes of a byte string. -/
def readHashes : Nat → Bytes → Option (List Bytes32)
  | 0, _ => some []
  | count + 1, bytes => do
    return (← Bytes32.ofBytes? (bytes.take 32)) :: (← readHashes count (bytes.drop 32))

def Side.ofBit (isLeft : Bool) : Side :=
  if isLeft then .left else .right

def Side.isLeft : Side → Bool
  | .left => true
  | .right => false

namespace InclusionProof

def encode (proof : InclusionProof) : Bytes :=
  layOut (proof.steps.map (·.sibling.bytes)) (proof.steps.map (·.side.isLeft))

/-- The steps of siblings and of the bits that tell their sides. -/
def ofSiblings (siblings : List Bytes32) (bits : List Bool) : InclusionProof :=
  ⟨List.zipWith (fun sibling bit => ⟨Side.ofBit bit, sibling⟩) siblings bits⟩

def decode (data : Bytes) : Except Fault InclusionProof :=
  match CompactSize.decode data with
  | .error fault =>
    .error (if fault.kind.isInvalidValue then .proofSize fault.message else fault)
  | .ok (count, offset) =>
    let width := offset + 32 * count + bitWidth count
    let bits := unpackBits (data.drop (offset + 32 * count))
    if maxProofDepth < count then .error (.proofDepth count)
    else if data.length ≠ width then .error (.proofWidth width count data.length)
    else match readHashes count (data.drop offset) with
      | none => .error (.proofWidth width count data.length)
      | some siblings =>
        if (bits.drop count).any id then .error .proofPadding
        else .ok (ofSiblings siblings bits)

def hex (proof : InclusionProof) : String :=
  Hex.encode proof.encode

def ofHex (text : String) : Except Fault InclusionProof :=
  match Hex.decodeSpaced text with
  | .ok data => decode data
  | .error position => .error (.proofHex position)

end InclusionProof

end QuorumTree
