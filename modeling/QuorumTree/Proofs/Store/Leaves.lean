import QuorumTree.Proofs.Store.RoundTrip
import QuorumTree.Proofs.Tree.Spread

/-!
Leaves that were overwritten. The tree over the leaves of a row is loaded when it has the root of
the row, and how many leaves there are is not asked. So a list of the right length has to be the
list that was committed to, but other lengths get by: a list that writes out the repetition of a
last leaf, or leaves it out, and every level above the leaves.
-/

namespace QuorumTree

namespace StoredCommitment

/-- A row with other leaves written into it. -/
def withLeaves (row : StoredCommitment) (texts : List Datum) : StoredCommitment :=
  { row with leafHashes := .list texts }

theorem loadTree_eq_ok_iff {row : StoredCommitment} {tree : MerkleTree} {root : Bytes32}
    {texts : List Datum} {leaves : List Bytes32} (hroot : row.merkleRoot.readHash = .ok root)
    (hleaves : texts.mapM Datum.readHash = .ok leaves) :
    (row.withLeaves texts).loadTree = .ok tree ↔ tree.leaves = leaves ∧ tree.root = root := by
  have hitems : (row.withLeaves texts).leafHashes.items = .ok texts := rfl
  have hsame : (row.withLeaves texts).merkleRoot = row.merkleRoot := rfl
  simp only [loadTree, hitems, hsame, hroot, hleaves, bind_eq_ok_iff, Except.ok.injEq,
    exists_eq_left']
  constructor
  · rintro ⟨found, hfound, hload⟩
    split_ifs at hload with hsame
    cases hload
    exact ⟨MerkleTree.leaves_of_ofLeaves hfound, hsame⟩
  · rintro ⟨rfl, rfl⟩
    exact ⟨tree, tree.ofLeaves_leaves, if_pos rfl⟩

theorem IsReturnedAs.readHash_merkleRoot {commitment : Commitment} {id : Int} {name : Datum}
    {output : OutputCommitment} {row : StoredCommitment}
    (hreturned : (of id name commitment output).IsReturnedAs row) :
    row.merkleRoot.readHash = .ok commitment.root := by
  rcases hreturned with rfl | hkept
  · exact Datum.readHash_text_encode commitment.root
  · rw [eq_of_kept hkept]
    exact Datum.readHash_text_encode commitment.root

/-- How far the leaves of a row are bound to its root. Whatever hashes are written over the leaves
of the record of a commitment, their tree is loaded exactly when it has the root of the commitment;
where no branches collide, that is when the two trees have one spread as far down as both reach.
Then a list of the right length is the list that was committed to. But every level of the committed
tree is loaded, if it is written over the leaves. -/
theorem loadTree_binds_spread {commitment : Commitment} {id : Int} {name : Datum}
    {output : OutputCommitment} {row : StoredCommitment} {texts : List Datum}
    {leaves : List Bytes32} (hreturned : (of id name commitment output).IsReturnedAs row)
    (hleaves : texts.mapM Datum.readHash = .ok leaves) :
    (∀ tree, (row.withLeaves texts).loadTree = .ok tree ↔
        tree.leaves = leaves ∧ tree.root = commitment.root) ∧
      (∀ tree : MerkleTree, tree.leaves = leaves →
        NoBranchCollision (tree.levels.pairs ++ commitment.tree.levels.pairs) →
        let height := min tree.depth commitment.tree.depth
        ((row.withLeaves texts).loadTree = .ok tree ↔
          spread height (tree.nodesUnder height) =
            spread height (commitment.tree.nodesUnder height)) ∧
        ((row.withLeaves texts).loadTree = .ok tree →
          tree.leafCount = commitment.tree.leafCount → tree.leaves = commitment.tree.leaves)) ∧
      ∀ level nodes, commitment.tree.levelAt level = .ok nodes →
        ∃ tree, (row.withLeaves (nodes.map fun node => .text (Hex.encode node.bytes))).loadTree =
          .ok tree ∧ tree.leaves = nodes := by
  have hroot := hreturned.readHash_merkleRoot
  have hloads : ∀ tree, (row.withLeaves texts).loadTree = .ok tree ↔
      tree.leaves = leaves ∧ tree.root = commitment.root :=
    fun tree => loadTree_eq_ok_iff hroot hleaves
  refine ⟨hloads, fun tree htree hpairs => ⟨?_, fun hload hcount => ?_⟩,
    fun level nodes hlevel => ?_⟩
  · rw [hloads, and_iff_right htree]
    exact MerkleTree.root_eq_iff_spread_eq hpairs
  · exact MerkleTree.leaves_eq_of_root_eq hpairs hcount ((hloads tree).mp hload).2
  · obtain ⟨tree, hnodes, hsame⟩ := MerkleTree.exists_tree_of_levelAt hlevel
    exact ⟨tree, (loadTree_eq_ok_iff hroot (Datum.mapM_readHash nodes)).mpr ⟨hnodes, hsame⟩, hnodes⟩

end StoredCommitment

namespace TwoOfThree

/-- The root of the commitment written over its two leaves is loaded as a tree of one leaf. -/
theorem loadTree_binds_spread_two_of_three :
    ∃ tree, (record.withLeaves [.text (Hex.encode commitment.root.bytes)]).loadTree = .ok tree ∧
      tree.leaves = [commitment.root] ∧ tree.leafCount ≠ commitment.tree.leafCount ∧
      NoBranchCollision (tree.levels.pairs ++ commitment.tree.levels.pairs) ∧
      spread 0 (tree.nodesUnder 0) = spread 0 (commitment.tree.nodesUnder 0) := by
  have hleaves : [Datum.text (Hex.encode commitment.root.bytes)].mapM Datum.readHash =
      .ok [commitment.root] := Datum.mapM_readHash [commitment.root]
  have hreturned : (StoredCommitment.of 1 (.text "vault") commitment output).IsReturnedAs record :=
    .inl rfl
  obtain ⟨hloads, hspread, -⟩ := StoredCommitment.loadTree_binds_spread hreturned hleaves
  have hpairs : NoBranchCollision ((MerkleTree.build commitment.root []).levels.pairs ++
      commitment.tree.levels.pairs) := by
    decide +kernel
  have hload := (hloads (.build commitment.root [])).mpr ⟨rfl, MerkleTree.root_build_nil _⟩
  exact ⟨_, hload, rfl, by decide, hpairs, (hspread _ rfl hpairs).1.mp hload⟩

end TwoOfThree

end QuorumTree
