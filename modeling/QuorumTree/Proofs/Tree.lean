import Mathlib.Data.List.Basic
import QuorumTree.Proof.Untrusted
import QuorumTree.Proofs.Refusal

/-!
The levels of a tree. Each level is made of the pairs of the one under it, up to the level of a
single node, so the leaves alone decide how many levels there are.
-/

namespace QuorumTree

/-! ### Depth -/

/-- The depth is the least number of doublings that reaches the number of leaves. -/
theorem treeDepth_le_iff {leafCount depth : Nat} :
    treeDepth leafCount ≤ depth ↔ leafCount ≤ 2 ^ depth := by
  have hpow : 1 ≤ 2 ^ depth := Nat.one_le_two_pow
  unfold treeDepth
  split_ifs with h
  · omega
  · rw [Nat.succ_le_iff, Nat.log2_lt (by omega)]
    omega

theorem treeDepth_half {leafCount : Nat} (h : 2 ≤ leafCount) :
    treeDepth ((leafCount + 1) / 2) + 1 = treeDepth leafCount := by
  -- A level above takes away one doubling, and putting it back covers the count again.
  refine Nat.le_antisymm ?_ ?_
  · have hdepth : 1 ≤ treeDepth leafCount := by
      refine Nat.one_le_iff_ne_zero.mpr fun hzero => ?_
      have hone := treeDepth_le_iff.mp (Nat.le_of_eq hzero)
      omega
    have hcount := treeDepth_le_iff.mp (Nat.le_refl (treeDepth leafCount))
    obtain ⟨depth, hdepth⟩ := Nat.exists_eq_add_of_le' hdepth
    rw [hdepth, Nat.pow_succ] at hcount
    rw [hdepth, Nat.add_le_add_iff_right, treeDepth_le_iff]
    omega
  · rw [treeDepth_le_iff, Nat.pow_succ]
    have hcount := treeDepth_le_iff.mp (Nat.le_refl (treeDepth ((leafCount + 1) / 2)))
    omega

/-! ### Pairs -/

/-- The pairs that a level is hashed in. -/
def pairsOf : List Bytes32 → List (Bytes32 × Bytes32)
  | a :: b :: rest => (a, b) :: pairsOf rest
  | [a] => [(a, a)]
  | [] => []

theorem pairUp_eq_map (nodes : List Bytes32) :
    pairUp nodes = (pairsOf nodes).map fun pair => branchHash pair.1 pair.2 := by
  fun_induction pairUp nodes with
  | case1 a b rest ih => rw [pairsOf, List.map_cons, ← ih]
  | case2 a => rfl
  | case3 => rfl

/-- The items two by two, where a last one is paired with itself. -/
def pairOff {α : Type} : List α → List (α × α)
  | a :: b :: rest => (a, b) :: pairOff rest
  | [a] => [(a, a)]
  | [] => []

theorem pairsOf_eq_pairOff (nodes : List Bytes32) : pairsOf nodes = pairOff nodes := by
  fun_induction pairsOf nodes with
  | case1 a b rest ih => rw [ih, pairOff]
  | case2 a => rfl
  | case3 => rfl

theorem mem_of_mem_pairOff {α : Type} {items : List α} {pair : α × α} (h : pair ∈ pairOff items) :
    pair.1 ∈ items ∧ pair.2 ∈ items := by
  fun_induction pairOff items with
  | case1 a b rest ih =>
      rcases List.mem_cons.mp h with rfl | hrest
      · simp
      · obtain ⟨hleft, hright⟩ := ih hrest
        simp [hleft, hright]
  | case2 a => simp_all
  | case3 => cases h

theorem mem_of_mem_pairsOf {nodes : List Bytes32} {pair : Bytes32 × Bytes32}
    (h : pair ∈ pairsOf nodes) : pair.1 ∈ nodes ∧ pair.2 ∈ nodes := by
  rw [pairsOf_eq_pairOff] at h
  exact mem_of_mem_pairOff h

/-- A pair holds the two nodes at twice its index and after, or the last one twice. -/
theorem getElem?_pairsOf (nodes : List Bytes32) (index : Nat) :
    (pairsOf nodes)[index]? =
      nodes[2 * index]?.map fun left => (left, nodes[2 * index + 1]?.getD left) := by
  induction index generalizing nodes with
  | zero =>
      match nodes with
      | [] => rfl
      | [a] => rfl
      | a :: b :: rest => rfl
  | succ index ih =>
      match nodes with
      | [] => rfl
      | [a] => rfl
      | a :: b :: rest => exact ih rest

/-- A node stands over the two nodes at twice its index and after, or over the last one twice. -/
theorem getElem?_pairUp (nodes : List Bytes32) (index : Nat) :
    (pairUp nodes)[index]? =
      nodes[2 * index]?.map fun left => branchHash left (nodes[2 * index + 1]?.getD left) := by
  rw [pairUp_eq_map, List.getElem?_map, getElem?_pairsOf, Option.map_map]
  rfl

namespace Levels

/-- The nodes of the widest level. -/
def base : Levels → List Bytes32
  | top root => [root]
  | level nodes _ => nodes

/-- Every level is made of the pairs of the one under it, and all but the last are wider than one
node. -/
inductive IsBuilt : Levels → Prop
  | top (root : Bytes32) : IsBuilt (top root)
  | level {nodes : List Bytes32} {above : Levels} :
      2 ≤ nodes.length → above.base = pairUp nodes → IsBuilt above → IsBuilt (level nodes above)

theorem base_grow {bound : Nat} {first : Bytes32} {rest : List Bytes32}
    (h : rest.length ≤ bound) : (grow bound first rest).base = first :: rest := by
  cases rest with
  | nil => cases bound <;> rfl
  | cons second rest =>
      cases bound with
      | zero => cases h
      | succ bound => rfl

theorem isBuilt_grow {bound : Nat} {first : Bytes32} {rest : List Bytes32}
    (h : rest.length ≤ bound) : IsBuilt (grow bound first rest) := by
  induction bound generalizing first rest with
  | zero =>
      rw [List.length_eq_zero_iff.mp (Nat.le_zero.mp h)]
      exact .top first
  | succ bound ih =>
      cases rest with
      | nil => exact .top first
      | cons second rest =>
          have habove : (pairUp rest).length ≤ bound := by
            rw [length_pairUp]
            rw [List.length_cons] at h
            omega
          refine .level ?_ (base_grow habove) (ih habove)
          rw [List.length_cons, List.length_cons]
          omega

theorem IsBuilt.depth_eq {levels : Levels} (h : levels.IsBuilt) :
    levels.depth = treeDepth levels.base.length := by
  induction h with
  | top root => rfl
  | level hwidth hbase _ ih =>
      rw [depth, ih, hbase, length_pairUp, base, treeDepth_half hwidth]

theorem getElem?_toList_depth (levels : Levels) :
    levels.toList[levels.depth]? = some [levels.root] := by
  induction levels with
  | top root => rfl
  | level nodes above ih => exact ih

/-- The pairs that the levels are hashed in, from the widest level up. -/
def pairs : Levels → List (Bytes32 × Bytes32)
  | top _ => []
  | level nodes above => pairsOf nodes ++ above.pairs

end Levels

namespace MerkleTree

variable (tree : MerkleTree)

theorem isBuilt : tree.levels.IsBuilt := by
  rw [tree.levels_eq]
  exact Levels.isBuilt_grow (Nat.le_refl _)

theorem base_levels : tree.levels.base = tree.leaves := by
  rw [tree.levels_eq]
  exact Levels.base_grow (Nat.le_refl _)

theorem depth_eq : tree.depth = treeDepth tree.leafCount := by
  rw [depth, tree.isBuilt.depth_eq, base_levels, leafCount]

theorem leaves_of_ofLeaves {leaves : List Bytes32} {tree : MerkleTree}
    (h : ofLeaves leaves = .ok tree) : tree.leaves = leaves := by
  cases leaves with
  | nil => cases h
  | cons first rest =>
      cases h
      rfl

theorem refusesOnly_ofLeaves {P : Fault → Prop} (h : P .noLeaves) (leaves : List Bytes32) :
    RefusesOnly P (ofLeaves leaves) := by
  unfold ofLeaves
  split
  · exact .ok _
  · exact .error h

/-- The leaves of a tree make the tree again. -/
theorem ofLeaves_leaves : ofLeaves tree.leaves = .ok tree := by
  obtain ⟨first, rest, levels, rfl⟩ := tree
  rfl

/-- Byte strings of the right width are taken for the leaves that they are. -/
theorem leavesOfWidths_bytes [Machine] (leaves : List Bytes32) (index : Nat) :
    leavesOfWidths index (leaves.map fun leaf => (.bytes leaf.bytes, leaf.bytes.length)) =
      .ok leaves := by
  induction leaves generalizing index with
  | nil => rfl
  | cons leaf leaves ih =>
      simp [leavesOfWidths, ih, leaf.length_bytes, Datum.toBytes, bind, Except.bind, pure,
        Except.pure]

theorem ofData_bytes [Machine] (leaves : List Bytes32) :
    ofData (leaves.map fun leaf => .bytes leaf.bytes) = ofLeaves leaves := by
  have hwidths : (leaves.map fun leaf => Datum.bytes leaf.bytes).mapM Datum.byteLength =
      .ok (leaves.map fun leaf => leaf.bytes.length) := by
    induction leaves with
    | nil => rfl
    | cons leaf leaves ih =>
        rw [List.map_cons, List.mapM_cons, ih]
        rfl
  have hzip : (leaves.map fun leaf => Datum.bytes leaf.bytes).zip
      (leaves.map fun leaf => leaf.bytes.length) =
        leaves.map fun leaf => (Datum.bytes leaf.bytes, leaf.bytes.length) :=
    List.zip_map'
  rw [ofData, hwidths]
  change (leavesOfWidths 0 _ >>= ofLeaves) = _
  rw [hzip, leavesOfWidths_bytes]
  rfl

theorem levelAt_eq_ok {level : Nat} {nodes : List Bytes32}
    (h : tree.levels.toList[level]? = some nodes) : tree.levelAt (.whole level) = .ok nodes := by
  obtain ⟨hlevel, hnodes⟩ := List.getElem?_eq_some_iff.mp h
  simp [levelAt, levelAt?, Number.toInt?, hlevel, hnodes]

theorem node_eq_ok {level index : Nat} {nodes : List Bytes32} {hash : Bytes32}
    (hlevel : tree.levels.toList[level]? = some nodes) (hindex : nodes[index]? = some hash) :
    tree.node (.whole level) (.whole index) = .ok ⟨.whole level, .whole index, hash⟩ := by
  obtain ⟨hlt, hhash⟩ := List.getElem?_eq_some_iff.mp hindex
  simp [node, tree.levelAt_eq_ok hlevel, nodeIn, Number.toInt?, hlt, hhash, bind, Except.bind]

theorem getElem?_toList_zero : tree.levels.toList[0]? = some tree.leaves := by
  rw [← tree.base_levels]
  cases tree.levels <;> rfl

theorem leaf_eq_ok {index : Nat} {hash : Bytes32} (h : tree.leaves[index]? = some hash) :
    tree.leaf (.whole index) = .ok hash := by
  have hnode := tree.node_eq_ok tree.getElem?_toList_zero h
  rw [Int.natCast_zero] at hnode
  rw [leaf, hnode]
  rfl

end MerkleTree

end QuorumTree
