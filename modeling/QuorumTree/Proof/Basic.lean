import QuorumTree.Tree

/-!
Inclusion proofs. A proof lists the siblings on the way from a leaf to the root, each with the side
it sits on, and folding them over the leaf gives the root.
-/

namespace QuorumTree

inductive Side
  | left
  | right
  deriving DecidableEq, Repr

/-- One level on the way to the root. -/
structure Step where
  side : Side
  sibling : Bytes32
  deriving DecidableEq

structure InclusionProof where
  steps : List Step
  deriving DecidableEq

def Step.parent (step : Step) (node : Bytes32) : Bytes32 :=
  match step.side with
  | .left => branchHash step.sibling node
  | .right => branchHash node step.sibling

def InclusionProof.rootFrom (proof : InclusionProof) (leaf : Bytes32) : Bytes32 :=
  proof.steps.foldl (fun node step => step.parent node) leaf

/-- The step from the node at an index of a level; the last node of an odd level is its own
sibling. -/
def siblingStep (nodes : List Bytes32) (index : Nat) : Option Step :=
  if index % 2 = 0 then
    (nodes[index + 1]?.or nodes[index]?).map (⟨.right, ·⟩)
  else (nodes[index - 1]?).map (⟨.left, ·⟩)

def Levels.path : Levels → Nat → Option (List Step)
  | .top _, index => if index = 0 then some [] else none
  | .level nodes above, index => do
    return (← siblingStep nodes index) :: (← above.path (index / 2))

namespace MerkleTree

def prove? (tree : MerkleTree) (index : Nat) : Option InclusionProof :=
  if index < tree.leafCount then (tree.levels.path index).map InclusionProof.mk else none

end MerkleTree

def maxProofDepth : Nat := 128

/-- Whether a proof leads from the leaf to the root. When the number of leaves is given, the proof
also has to be as long as their tree is deep. -/
def InclusionProof.verify (proof : InclusionProof) (leaf root : Bytes32)
    (leafCount : Option Int) : Bool :=
  proof.steps.length ≤ maxProofDepth &&
    (match leafCount with
      | none => true
      | some count => 1 ≤ count && proof.steps.length == treeDepth count.toNat) &&
    proof.rootFrom leaf == root

end QuorumTree
