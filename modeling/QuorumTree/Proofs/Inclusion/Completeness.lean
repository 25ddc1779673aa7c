import QuorumTree.Proof.Untrusted
import QuorumTree.Proofs.Tree

/-!
Completeness of proofs. Each step of a path leads from a node to the one over it, so every leaf has
a proof, as long as its tree is deep, that leads to the root.
-/

namespace QuorumTree

theorem rootFrom_cons (step : Step) (steps : List Step) (leaf : Bytes32) :
    InclusionProof.rootFrom ⟨step :: steps⟩ leaf =
      InclusionProof.rootFrom ⟨steps⟩ (step.parent leaf) := rfl

/-- The sibling of a node leads to the node over them; the last node of an odd level is its own. -/
theorem exists_siblingStep {nodes : List Bytes32} {index : Nat} {node : Bytes32}
    (h : nodes[index]? = some node) :
    ∃ step, siblingStep nodes index = some step ∧
      (pairUp nodes)[index / 2]? = some (step.parent node) := by
  rw [getElem?_pairUp]
  unfold siblingStep
  rcases Nat.mod_two_eq_zero_or_one index with heven | hodd
  · have hleft : 2 * (index / 2) = index := by omega
    rw [if_pos heven, hleft, h]
    cases nodes[index + 1]? with
    | none => exact ⟨⟨.right, node⟩, rfl, rfl⟩
    | some sibling => exact ⟨⟨.right, sibling⟩, rfl, rfl⟩
  · have hleft : 2 * (index / 2) = index - 1 := by omega
    have hright : index - 1 + 1 = index := by omega
    have hlt := (List.getElem?_eq_some_iff.mp h).1
    have hsibling := List.getElem?_eq_getElem (Nat.lt_of_le_of_lt (Nat.sub_le index 1) hlt)
    rw [if_neg (by omega), hleft, hsibling, hright, h]
    exact ⟨⟨.left, nodes[index - 1]⟩, rfl, rfl⟩

namespace Levels

theorem IsBuilt.exists_path {levels : Levels} (h : levels.IsBuilt) {index : Nat} {leaf : Bytes32}
    (hleaf : levels.base[index]? = some leaf) :
    ∃ steps, levels.path index = some steps ∧ steps.length = levels.depth ∧
      InclusionProof.rootFrom ⟨steps⟩ leaf = levels.root := by
  induction h generalizing index leaf with
  | top root =>
      have hindex : index < 1 := (List.getElem?_eq_some_iff.mp hleaf).1
      obtain rfl := Nat.lt_one_iff.mp hindex
      cases hleaf
      exact ⟨[], rfl, rfl, rfl⟩
  | @level nodes above _ hbase _ ih =>
      rw [base] at hleaf
      obtain ⟨step, hstep, hparent⟩ := exists_siblingStep hleaf
      obtain ⟨steps, hsteps, hlength, hroot⟩ := ih (hbase ▸ hparent)
      refine ⟨step :: steps, ?_, congrArg (· + 1) hlength, ?_⟩
      · simp [path, hstep, hsteps]
      · rw [rootFrom_cons]
        exact hroot

end Levels

namespace MerkleTree

theorem exists_prove (tree : MerkleTree) {index : Nat} {leaf : Bytes32}
    (hleaf : tree.leaves[index]? = some leaf) :
    ∃ proof : InclusionProof, tree.prove (.int index) = .ok proof ∧
      proof.steps.length = tree.depth ∧ proof.rootFrom leaf = tree.root := by
  rw [← base_levels] at hleaf
  obtain ⟨steps, hpath, hlength, hroot⟩ := tree.isBuilt.exists_path hleaf
  have hindex : index < tree.leafCount := by
    rw [leafCount, ← base_levels]
    exact (List.getElem?_eq_some_iff.mp hleaf).1
  refine ⟨⟨steps⟩, ?_, hlength, hroot⟩
  simp [prove, Datum.toInt?, Datum.toNumber?, Number.toInt?, prove?, hindex, hpath]

/-- A proof that is as long as the tree is deep and leads to its root is accepted with the number of
leaves, as long as these are not too many for a proof. -/
theorem verify_of_rootFrom (tree : MerkleTree) {proof : InclusionProof} {leaf : Bytes32}
    (hcount : tree.leafCount ≤ 2 ^ maxProofDepth) (hlength : proof.steps.length = tree.depth)
    (hroot : proof.rootFrom leaf = tree.root) :
    proof.verify leaf tree.root (some tree.leafCount) = true := by
  have hdepth : proof.steps.length ≤ maxProofDepth := by
    rw [hlength, tree.depth_eq]
    exact treeDepth_le_iff.mpr hcount
  have hpositive : 1 ≤ tree.leafCount := Nat.succ_pos _
  have hexpected : proof.steps.length = treeDepth tree.leafCount := by
    rw [hlength, tree.depth_eq]
  simp only [InclusionProof.verify, hroot, Int.toNat_natCast, ← hexpected, BEq.rfl, Bool.and_true,
    Bool.and_eq_true, decide_eq_true_eq]
  omega

/-- The same for every value that can be read as the proof. -/
theorem verifyData_of_rootFrom (tree : MerkleTree) {proof : InclusionProof} {leaf : Bytes32}
    {form : Datum} {leafCount : Number} (hcount : tree.leafCount ≤ 2 ^ maxProofDepth)
    (hlength : proof.steps.length = tree.depth) (hroot : proof.rootFrom leaf = tree.root)
    (hform : form.toProof? = some proof)
    (hleafCount : leafCount.toInt? = some (tree.leafCount : Int)) :
    verifyData (.bytes leaf.bytes) form (.bytes tree.root.bytes) (.number leafCount) = true := by
  have hleaves : (Datum.number leafCount).toLeafCount? = some (some (tree.leafCount : Int)) := by
    simp [Datum.toLeafCount?, Datum.toInt?, Datum.toNumber?, hleafCount]
  simp only [verifyData, hform, hleaves, Datum.toHash?, Bytes32.ofBytes?_bytes]
  exact tree.verify_of_rootFrom hcount hlength hroot

end MerkleTree

end QuorumTree
