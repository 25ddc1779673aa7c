import QuorumTree.CompactSize
import QuorumTree.Hash.Sha256

/-!
Tagged hashes. Every purpose has its own tag, and the digest of the tag is put twice before the
data, so a digest made for one purpose cannot be passed off as one made for another.
-/

namespace QuorumTree

/-- What a tagged hash feeds to SHA-256: the digest of the tag twice, and the data. -/
def taggedMessage (tag data : Bytes) : Bytes :=
  (sha256 tag).bytes ++ (sha256 tag).bytes ++ data

def taggedHash (tag data : Bytes) : Bytes32 :=
  sha256 (taggedMessage tag data)

namespace Tag

/-- The tag of leaves, `TapLeaf`. -/
def leaf : Bytes := [0x54, 0x61, 0x70, 0x4c, 0x65, 0x61, 0x66]

/-- The tag of branches, `TapBranch`. -/
def branch : Bytes := [0x54, 0x61, 0x70, 0x42, 0x72, 0x61, 0x6e, 0x63, 0x68]

/-- The tag of output tweaks, `TapTweak`. -/
def tweak : Bytes := [0x54, 0x61, 0x70, 0x54, 0x77, 0x65, 0x61, 0x6b]

end Tag

def leafVersion : UInt8 := 0xc0

/-- The script that one signature by the given x-only key satisfies. -/
def keyScript (key : Bytes) : Bytes :=
  UInt8.ofNat key.length :: key ++ [0xac]

/-- The data of a leaf: the version, and the script after its length. -/
def leafData (key : Bytes) : Bytes :=
  leafVersion :: CompactSize.encode (keyScript key).length ++ keyScript key

def leafHash (key : Bytes32) : Bytes32 :=
  taggedHash Tag.leaf (leafData key.bytes)

/-- The hash of a branch. The children are not sorted. -/
def branchHash (left right : Bytes32) : Bytes32 :=
  taggedHash Tag.branch (left.bytes ++ right.bytes)

def tweakHash (internalKey root : Bytes32) : Bytes32 :=
  taggedHash Tag.tweak (internalKey.bytes ++ root.bytes)

def keyScriptOf (key : Bytes) : Except Fault Bytes :=
  if key.length < 256 then .ok (keyScript key) else .error .byteRange

def leafHashOf (key : Bytes) : Except Fault Bytes32 :=
  match Bytes32.ofBytes? key with
  | some key => .ok (leafHash key)
  | none => .error (.leafKeyWidth key.length)

def branchHashOf (left right : Bytes) : Except Fault Bytes32 :=
  match Bytes32.ofBytes? left, Bytes32.ofBytes? right with
  | some left, some right => .ok (branchHash left right)
  | _, _ => .error .branchWidth

def tweakHashOf (internalKey root : Bytes) : Except Fault Bytes32 :=
  match Bytes32.ofBytes? internalKey, Bytes32.ofBytes? root with
  | some internalKey, some root => .ok (tweakHash internalKey root)
  | none, _ => .error (.internalKeyWidth internalKey.length)
  | some _, none => .error (.rootWidth root.length)

end QuorumTree
