import Mathlib.Order.Bounds.Basic
import QuorumTree.Proofs.Inclusion.Position

/-!
The arena of a tree. The levels are held one above the other, each half as wide as the one under it,
and nodes are found by level and index. The children of a node are looked up by arithmetic on its
place, apart from the pairing that the levels were hashed by; both tell of the same two nodes, and
every node but the root is the child of just one.
-/

namespace QuorumTree

namespace Levels

theorem getElem?_toList_zero (levels : Levels) : levels.toList[0]? = some levels.base := by
  cases levels <;> rfl

@[simp] theorem length_toList (levels : Levels) : levels.toList.length = levels.depth + 1 := by
  induction levels with
  | top root => rfl
  | level nodes above ih => rw [toList, List.length_cons, ih, depth]

/-- Each level is made of the pairs of the one under it. -/
theorem IsBuilt.eq_pairUp {levels : Levels} (h : levels.IsBuilt) {level : Nat}
    {lower upper : List Bytes32} (hlower : levels.toList[level]? = some lower)
    (hupper : levels.toList[level + 1]? = some upper) : upper = pairUp lower := by
  induction h generalizing level with
  | top root => simp [toList] at hupper
  | @level nodes above _ hbase _ ih =>
      cases level with
      | zero =>
          have hnodes : nodes = lower := Option.some.inj hlower
          have habove : above.toList[0]? = some upper := hupper
          rw [above.getElem?_toList_zero, hbase, hnodes] at habove
          exact (Option.some.inj habove).symm
      | succ level => exact ih hlower hupper

end Levels

namespace MerkleTree

variable {tree : MerkleTree} {level index : Nat} {node parent left right : MerkleNode}

/-- The node stands at a place of the tree. -/
def Holds (tree : MerkleTree) (node : MerkleNode) : Prop :=
  ∃ level index : Nat, tree.node (.whole level) (.whole index) = .ok node

/-- The node is one of the two that the other was hashed from. -/
def IsChildOf (tree : MerkleTree) (node parent : MerkleNode) : Prop :=
  ∃ left right, tree.children parent.level parent.index = .ok (some (left, right)) ∧
    (node = left ∨ node = right)

/-- What the levels of a tree over some leaves are like, and how its nodes hang together. -/
structure IsArenaOf (tree : MerkleTree) (leaves : List Bytes32) : Prop where
  bottom : tree.levels.toList[0]? = some leaves
  width : ∀ (level : Nat) lower upper, tree.levels.toList[level]? = some lower →
    tree.levels.toList[level + 1]? = some upper → upper.length = (lower.length + 1) / 2
  top : tree.levels.toList.getLast? = some [tree.root]
  depth_eq : tree.depth = tree.levels.toList.length - 1
  treeDepth_eq : treeDepthOf (.whole leaves.length) = .ok tree.depth
  isLeast_depth : IsLeast {depth | leaves.length ≤ 2 ^ depth} tree.depth
  children : ∀ (level index : Nat) lower upper, tree.levels.toList[level]? = some lower →
    tree.levels.toList[level + 1]? = some upper → index < upper.length →
    ∃ node left right, tree.node (.whole (level + 1 : Nat)) (.whole index) = .ok node ∧
      tree.children node.level node.index = .ok (some (left, right)) ∧
      tree.node (.whole level) (.whole (2 * index : Nat)) = .ok left ∧
      tree.node (.whole level) (.whole (min (2 * index + 1) (lower.length - 1) : Nat)) =
        .ok right ∧
      node.hash = branchHash left.hash right.hash
  parent : ∀ node, tree.Holds node → node ≠ tree.rootNode →
    ∃! parent, tree.Holds parent ∧ tree.IsChildOf node parent
  root : tree.Holds tree.rootNode ∧
    ∀ parent, tree.Holds parent → ¬ tree.IsChildOf tree.rootNode parent

/-! ### Places -/

theorem levelAt_eq_ok_iff {nodes : List Bytes32} :
    tree.levelAt (.whole level) = .ok nodes ↔ tree.levels.toList[level]? = some nodes := by
  constructor
  · intro h
    unfold levelAt at h
    split_ifs at h with hrange
    · simp only [Number.toInt?, Option.bind_some, levelAt?, Int.natCast_nonneg, if_true,
        Int.toNat_natCast] at h
      split at h
      · next found hfound => rw [hfound, Except.ok.inj h]
      · cases h
  · exact tree.levelAt_eq_ok

theorem node_eq_ok_iff :
    tree.node (.whole level) (.whole index) = .ok node ↔
      ∃ nodes hash, tree.levels.toList[level]? = some nodes ∧ nodes[index]? = some hash ∧
        node = ⟨.whole level, .whole index, hash⟩ := by
  constructor
  · intro h
    obtain ⟨nodes, hnodes, hnode⟩ := bind_eq_ok_iff.mp h
    unfold nodeIn at hnode
    split_ifs at hnode with hrange
    · simp only [Number.toInt?, Option.bind_some, Int.toNat_natCast] at hnode
      split at hnode
      · next hash hhash =>
          exact ⟨nodes, hash, levelAt_eq_ok_iff.mp hnodes, hhash, (Except.ok.inj hnode).symm⟩
      · cases hnode
  · rintro ⟨nodes, hash, hlevel, hindex, rfl⟩
    exact tree.node_eq_ok hlevel hindex

theorem half_rightIndex (width index : Nat) : rightIndex width index / 2 = index := by
  unfold rightIndex
  split_ifs <;> omega

/-- Every index of a level is that of a left or of a right child. -/
theorem eq_double_or_eq_rightIndex {width : Nat} (h : index < width) :
    index = 2 * (index / 2) ∨ index = rightIndex width (index / 2) := by
  unfold rightIndex
  split_ifs <;> omega

theorem rightIndex_eq_min {width : Nat} (h : 2 * index < width) :
    rightIndex width index = min (2 * index + 1) (width - 1) := by
  unfold rightIndex
  split_ifs <;> omega

/-! ### Children and parents -/

variable {nodes lower upper : List Bytes32}

/-- At every place above the leaves there are children, and the node there is their branch. -/
theorem exists_children_at (hlower : tree.levels.toList[level]? = some lower)
    (hupper : tree.levels.toList[level + 1]? = some upper) (hindex : index < upper.length) :
    ∃ left, lower[2 * index]? = some left ∧
      upper[index]? = some (branchHash left (lower[2 * index + 1]?.getD left)) ∧
      tree.children (.whole (level + 1 : Nat)) (.whole index) =
        .ok (some (⟨.whole level, .whole (2 * index : Nat), left⟩,
          ⟨.whole level, .whole (rightIndex lower.length index),
            lower[2 * index + 1]?.getD left⟩)) := by
  have hpairs := tree.isBuilt.eq_pairUp hlower hupper
  have hwidth : 2 * index < lower.length := by
    rw [hpairs, length_pairUp] at hindex
    omega
  have hleft := List.getElem?_eq_getElem hwidth
  refine ⟨_, hleft, ?_, tree.children_eq_ok hlower hleft⟩
  rw [hpairs, getElem?_pairUp, hleft]
  rfl

theorem exists_children (hlower : tree.levels.toList[level]? = some lower)
    (hupper : tree.levels.toList[level + 1]? = some upper) (hindex : index < upper.length) :
    ∃ node left right, tree.node (.whole (level + 1 : Nat)) (.whole index) = .ok node ∧
      tree.children node.level node.index = .ok (some (left, right)) ∧
      tree.node (.whole level) (.whole (2 * index : Nat)) = .ok left ∧
      tree.node (.whole level) (.whole (min (2 * index + 1) (lower.length - 1) : Nat)) =
        .ok right ∧
      node.hash = branchHash left.hash right.hash := by
  obtain ⟨left, hleft, hparent, hchildren⟩ := exists_children_at hlower hupper hindex
  have hwidth := (List.getElem?_eq_some_iff.mp hleft).1
  refine ⟨_, _, _, tree.node_eq_ok hupper hparent, hchildren, tree.node_eq_ok hlower hleft, ?_, rfl⟩
  rw [← rightIndex_eq_min hwidth]
  exact tree.node_eq_ok hlower (getElem?_rightIndex hleft)

theorem Holds.node_eq_ok (h : tree.Holds node) : tree.node node.level node.index = .ok node := by
  obtain ⟨level, index, hnode⟩ := h
  obtain ⟨nodes, hash, -, -, rfl⟩ := node_eq_ok_iff.mp hnode
  exact hnode

/-- Of the nodes of a tree, only the one at half the index of a node, one level up, is over it. -/
theorem isChildOf_iff (hlower : tree.levels.toList[level]? = some lower) {hash : Bytes32}
    (hnode : lower[index]? = some hash) (hparent : tree.Holds parent) :
    tree.IsChildOf ⟨.whole level, .whole index, hash⟩ parent ↔
      parent.level = .whole (level + 1 : Nat) ∧ parent.index = .whole (index / 2 : Nat) := by
  obtain ⟨above, place, hfound⟩ := hparent
  obtain ⟨upper, other, hupper, hplace, rfl⟩ := node_eq_ok_iff.mp hfound
  cases above with
  | zero =>
      have hleaf : tree.children (.whole (0 : Nat)) (.whole place) = .ok none := rfl
      constructor
      · rintro ⟨left, right, hchildren, -⟩
        rw [hleaf] at hchildren
        cases hchildren
      · rintro ⟨hlevel, -⟩
        simp only [Number.whole.injEq] at hlevel
        omega
  | succ below =>
      have hbelow : below < tree.levels.toList.length :=
        (Nat.lt_succ_self below).trans (List.getElem?_eq_some_iff.mp hupper).1
      obtain ⟨left, hleft, -, hchildren⟩ := exists_children_at
        (List.getElem?_eq_getElem hbelow) hupper (List.getElem?_eq_some_iff.mp hplace).1
      constructor
      · rintro ⟨first, second, hfound, hside⟩
        rw [hchildren, Except.ok.injEq, Option.some.injEq, Prod.mk.injEq] at hfound
        obtain ⟨rfl, rfl⟩ := hfound
        simp only [MerkleNode.mk.injEq, Number.whole.injEq, Int.natCast_inj] at hside ⊢
        have hhalf := half_rightIndex tree.levels.toList[below].length place
        rcases hside with ⟨hlevel, hindex, -⟩ | ⟨hlevel, hindex, -⟩
        · omega
        · rw [hindex, hhalf]
          exact ⟨by omega, rfl⟩
      · simp only [Number.whole.injEq, Int.natCast_inj]
        rintro ⟨hlevel, rfl⟩
        obtain rfl : below = level := by omega
        rw [List.getElem?_eq_getElem hbelow, Option.some.injEq] at hlower
        rw [hlower] at hleft hchildren
        refine ⟨_, _, hchildren, ?_⟩
        rcases eq_double_or_eq_rightIndex (List.getElem?_eq_some_iff.mp hnode).1 with h | h
        · left
          rw [← h, hnode] at hleft
          rw [← h, Option.some.inj hleft]
        · right
          have hright := getElem?_rightIndex hleft
          rw [← h, hnode] at hright
          rw [← h, ← Option.some.inj hright]

theorem holds_rootNode (tree : MerkleTree) : tree.Holds tree.rootNode :=
  ⟨tree.depth, 0, tree.node_rootNode⟩

/-- Only the root stands on the highest level. -/
theorem eq_rootNode_of_depth_le (hnode : tree.node (.whole level) (.whole index) = .ok node)
    (hlevel : tree.depth ≤ level) : node = tree.rootNode := by
  obtain ⟨nodes, hash, hnodes, hindex, rfl⟩ := node_eq_ok_iff.mp hnode
  have hrange := (List.getElem?_eq_some_iff.mp hnodes).1
  rw [Levels.length_toList] at hrange
  have htop : level = tree.levels.depth := Nat.le_antisymm (Nat.le_of_lt_succ hrange) hlevel
  rw [htop, tree.levels.getElem?_toList_depth, Option.some.injEq] at hnodes
  subst hnodes
  have hfirst : index = 0 := Nat.lt_one_iff.mp (List.getElem?_eq_some_iff.mp hindex).1
  subst hfirst
  rw [htop, ← Option.some.inj hindex]
  rfl

theorem not_isChildOf_rootNode (hparent : tree.Holds parent) :
    ¬ tree.IsChildOf tree.rootNode parent := by
  intro hchild
  have hlevel := tree.levels.getElem?_toList_depth
  have hover := ((isChildOf_iff hlevel rfl hparent).mp hchild).1
  obtain ⟨above, index, hfound⟩ := hparent
  obtain ⟨nodes, hash, hnodes, -, rfl⟩ := node_eq_ok_iff.mp hfound
  have hrange := (List.getElem?_eq_some_iff.mp hnodes).1
  rw [Levels.length_toList] at hrange
  simp only [Number.whole.injEq] at hover
  omega

theorem existsUnique_parent (hnode : tree.Holds node) (hroot : node ≠ tree.rootNode) :
    ∃! parent, tree.Holds parent ∧ tree.IsChildOf node parent := by
  obtain ⟨level, index, hfound⟩ := hnode
  obtain ⟨lower, hash, hlower, hindex, rfl⟩ := node_eq_ok_iff.mp hfound
  have hlevel : level + 1 < tree.levels.toList.length := by
    rw [Levels.length_toList]
    by_contra hhigh
    apply hroot
    apply eq_rootNode_of_depth_le hfound
    exact Nat.le_of_not_lt fun hlow => hhigh (Nat.succ_lt_succ hlow)
  have hupper := List.getElem?_eq_getElem hlevel
  have hhalf : index / 2 < tree.levels.toList[level + 1].length := by
    have hwidth := (List.getElem?_eq_some_iff.mp hindex).1
    rw [tree.isBuilt.eq_pairUp hlower hupper, length_pairUp]
    omega
  have hparent := tree.node_eq_ok hupper (List.getElem?_eq_getElem hhalf)
  have hholds : tree.Holds _ := ⟨_, _, hparent⟩
  refine ⟨_, ⟨hholds, (isChildOf_iff hlower hindex hholds).mpr ⟨rfl, rfl⟩⟩, ?_⟩
  rintro other ⟨hother, hchild⟩
  obtain ⟨hsame, hplace⟩ := (isChildOf_iff hlower hindex hother).mp hchild
  have hotherNode := hother.node_eq_ok
  rw [hsame, hplace, hparent] at hotherNode
  exact (Except.ok.inj hotherNode).symm

theorem isLeast_depth (tree : MerkleTree) :
    IsLeast {depth | tree.leafCount ≤ 2 ^ depth} tree.depth := by
  rw [tree.depth_eq]
  exact ⟨treeDepth_le_iff.mp le_rfl, fun depth hdepth => treeDepth_le_iff.mpr hdepth⟩

theorem isArenaOf_leaves (tree : MerkleTree) : tree.IsArenaOf tree.leaves where
  bottom := tree.getElem?_toList_zero
  width level lower upper hlower hupper := by
    rw [tree.isBuilt.eq_pairUp hlower hupper, length_pairUp]
  top := by
    rw [List.getLast?_eq_getElem?, Levels.length_toList]
    exact tree.levels.getElem?_toList_depth
  depth_eq := by
    rw [Levels.length_toList]
    rfl
  treeDepth_eq := by
    have hpositive : ¬ ((tree.leaves.length : Int) < 1) := by
      have hcount : 0 < tree.leaves.length := Nat.succ_pos _
      omega
    simp [treeDepthOf, hpositive, Number.toInt?, tree.depth_eq, leafCount]
  isLeast_depth := tree.isLeast_depth
  children _ _ _ _ := exists_children
  parent _ := existsUnique_parent
  root := ⟨tree.holds_rootNode, fun _ => not_isChildOf_rootNode⟩

/-- Every list of leaves, at least one of them, has a tree, and the tree is well formed. Its levels
begin with the leaves, each is half as wide as the one under it, rounded up, and the last one is the
root alone; there are as many of them over the leaves as the number of leaves calls for. A node over
the leaves is the branch of the two nodes that are looked up as its children, at twice its index and
after, the second one drawn back to the end of an odd level; and every node but the root is a child
of exactly one node. -/
theorem build_isArena [Machine] {leaves : List Bytes32} (hleaves : leaves ≠ []) :
    ∃ tree, ofData (leaves.map fun leaf => .bytes leaf.bytes) = .ok tree ∧
      ofLeaves leaves = .ok tree ∧ tree.IsArenaOf leaves := by
  obtain ⟨first, rest, rfl⟩ := List.exists_cons_of_ne_nil hleaves
  refine ⟨build first rest, ?_, rfl, (build first rest).isArenaOf_leaves⟩
  rw [ofData_bytes]
  rfl

/-- The third of three leaves is both children of the node over it. -/
theorem build_isArena_three_leaves :
    ∃ tree node leaf, ofLeaves [ThreeLeaves.first, ThreeLeaves.second, ThreeLeaves.third] =
        .ok tree ∧
      tree.node (.whole 1) (.whole 1) = .ok node ∧ tree.node (.whole 0) (.whole 2) = .ok leaf ∧
      tree.children node.level node.index = .ok (some (leaf, leaf)) ∧
      node.hash = branchHash leaf.hash leaf.hash := by
  obtain ⟨tree, -, htree, harena⟩ := build_isArena
    (List.cons_ne_nil ThreeLeaves.first [ThreeLeaves.second, ThreeLeaves.third])
  cases htree
  obtain ⟨node, left, right, hnode, hchildren, hleft, hright, hhash⟩ :=
    harena.children 0 1 _ _ rfl rfl (by decide)
  obtain rfl : left = right := Except.ok.inj (hleft.symm.trans hright)
  exact ⟨_, node, left, rfl, hnode, hleft, hchildren, hhash⟩

end MerkleTree

end QuorumTree
