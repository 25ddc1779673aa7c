import QuorumTree.Proofs.Inclusion.Completeness
import QuorumTree.Proofs.Inclusion.Soundness
import QuorumTree.Proofs.Inclusion.Value

/-!
Where a proof leads. Read from its last step to its first, a proof that is accepted is a way down
the tree from the root: each step passes over the child that it has as its sibling and goes on with
the other one, until a leaf is reached.
-/

namespace QuorumTree

namespace MerkleTree

/-- A way down the tree, one step a level. A step with its sibling on the right goes to the left
child and one with its sibling on the left to the right child; the sibling is the hash of the
other. -/
inductive Descends (tree : MerkleTree) : MerkleNode → List Step → MerkleNode → Prop
  | here (node : MerkleNode) : Descends tree node [] node
  | toLeft {node left right leaf : MerkleNode} {steps : List Step} :
      tree.children node.level node.index = .ok (some (left, right)) →
        Descends tree left steps leaf → Descends tree node (⟨.right, right.hash⟩ :: steps) leaf
  | toRight {node left right leaf : MerkleNode} {steps : List Step} :
      tree.children node.level node.index = .ok (some (left, right)) →
        Descends tree right steps leaf → Descends tree node (⟨.left, left.hash⟩ :: steps) leaf

/-- The node at the top of a tree. -/
def rootNode (tree : MerkleTree) : MerkleNode :=
  ⟨.whole tree.depth, .whole 0, tree.root⟩

namespace Descends

variable {tree : MerkleTree} {node between leaf other : MerkleNode} {steps others : List Step}

theorem append (h : tree.Descends node steps between)
    (hothers : tree.Descends between others leaf) :
    tree.Descends node (steps ++ others) leaf := by
  induction h with
  | here node => exact hothers
  | toLeft hchildren _ ih => exact .toLeft hchildren (ih hothers)
  | toRight hchildren _ ih => exact .toRight hchildren (ih hothers)

/-- The sides alone tell the way, and with it the siblings. -/
theorem eq_of_sides (h : tree.Descends node steps leaf) (hother : tree.Descends node others other)
    (hsides : steps.map (·.side) = others.map (·.side)) : steps = others ∧ leaf = other := by
  induction h generalizing others other with
  | here node =>
      cases hother with
      | here node => exact ⟨rfl, rfl⟩
      | toLeft => cases hsides
      | toRight => cases hsides
  | toLeft hchildren _ ih =>
      cases hother with
      | here node => cases hsides
      | toRight => cases hsides
      | toLeft hothers hrest =>
          rw [hchildren] at hothers
          cases hothers
          obtain ⟨rfl, rfl⟩ := ih hrest (List.cons.inj hsides).2
          exact ⟨rfl, rfl⟩
  | toRight hchildren _ ih =>
      cases hother with
      | here node => cases hsides
      | toLeft => cases hsides
      | toRight hothers hrest =>
          rw [hchildren] at hothers
          cases hothers
          obtain ⟨rfl, rfl⟩ := ih hrest (List.cons.inj hsides).2
          exact ⟨rfl, rfl⟩

end Descends

/-! ### Children -/

/-- The index of the right child of the node at an index, on a level of the given width. The last
node of an odd level is the right child too. -/
def rightIndex (width index : Nat) : Nat :=
  if 2 * index + 1 < width then 2 * index + 1 else 2 * index

theorem getElem?_rightIndex {nodes : List Bytes32} {index : Nat} {left : Bytes32}
    (hleft : nodes[2 * index]? = some left) :
    nodes[rightIndex nodes.length index]? = some (nodes[2 * index + 1]?.getD left) := by
  unfold rightIndex
  split_ifs with hwidth
  · rw [List.getElem?_eq_getElem hwidth]
    rfl
  · rw [List.getElem?_eq_none (Nat.not_lt.mp hwidth)]
    exact hleft

theorem children_eq_ok (tree : MerkleTree) {level index : Nat} {nodes : List Bytes32}
    {left : Bytes32} (hlevel : tree.levels.toList[level]? = some nodes)
    (hleft : nodes[2 * index]? = some left) :
    tree.children (.whole (level + 1 : Nat)) (.whole index) =
      .ok (some (⟨.whole level, .whole (2 * index : Nat), left⟩,
        ⟨.whole level, .whole (rightIndex nodes.length index),
          nodes[2 * index + 1]?.getD left⟩)) := by
  have hunder : tree.levelUnder (.whole (level + 1 : Nat)) = .ok (some (.whole level, nodes)) := by
    have hlevels : tree.levelUnder? (level + 1 : Nat) = some nodes := by
      simp [levelUnder?, hlevel]
    have hpositive : ¬ (((level + 1 : Nat) : Int) = 0) := by omega
    have hbelow : ((level + 1 : Nat) : Int) - 1 = level := by omega
    simp only [levelUnder, Number.whole_same_whole, decide_eq_true_eq, hpositive, if_false,
      Number.toInt?, hlevels, hbelow]
  have hdouble : (index : Int) + index = (2 * index : Nat) := by omega
  have hright : (if (Number.whole ((2 * index : Nat) + 1)).lt (.whole nodes.length)
      then Number.whole ((2 * index : Nat) + 1) else .whole (2 * index : Nat)) =
        .whole (rightIndex nodes.length index) := by
    rw [Number.whole_lt_whole, rightIndex]
    split_ifs with hlt hwidth hwidth
    · rfl
    · rw [decide_eq_true_eq] at hlt
      omega
    · rw [decide_eq_true_eq] at hlt
      omega
    · rfl
  have hsum (a b : Int) : (Number.whole a).add? (.whole b) = some (.whole (a + b)) := rfl
  simp only [children, hunder, childrenIn, hsum, Option.getD_some, hdouble, hright,
    tree.node_eq_ok hlevel hleft, tree.node_eq_ok hlevel (getElem?_rightIndex hleft), bind,
    Except.bind, pure, Except.pure, Functor.map, Except.map]

/-- The levels are those of the tree from `bottom` on. -/
structure EndsWith (tree : MerkleTree) (bottom : Nat) (levels : Levels) : Prop where
  getElem?_toList : ∀ k, tree.levels.toList[bottom + k]? = levels.toList[k]?
  depth : tree.depth = bottom + levels.depth
  root : tree.root = levels.root

namespace EndsWith

variable {tree : MerkleTree} {bottom : Nat} {nodes : List Bytes32} {above : Levels}

theorem all (tree : MerkleTree) : tree.EndsWith 0 tree.levels where
  getElem?_toList k := by rw [Nat.zero_add]
  depth := by rw [Nat.zero_add]; rfl
  root := rfl

theorem succ (h : tree.EndsWith bottom (.level nodes above)) :
    tree.EndsWith (bottom + 1) above where
  getElem?_toList k := by
    rw [Nat.add_assoc, Nat.add_comm 1]
    exact h.getElem?_toList (k + 1)
  depth := by rw [h.depth, Levels.depth, Nat.add_assoc, Nat.add_comm 1]
  root := h.root

theorem getElem?_bottom (h : tree.EndsWith bottom (.level nodes above)) :
    tree.levels.toList[bottom]? = some nodes :=
  h.getElem?_toList 0

theorem descends_left (h : tree.EndsWith bottom (.level nodes above)) {index : Nat}
    {left : Bytes32} (hleft : nodes[2 * index]? = some left) (hash : Bytes32) :
    tree.Descends ⟨.whole (bottom + 1 : Nat), .whole index, hash⟩
      [⟨.right, nodes[2 * index + 1]?.getD left⟩]
      ⟨.whole bottom, .whole (2 * index : Nat), left⟩ := by
  have hdown : tree.Descends ⟨.whole (bottom + 1 : Nat), .whole index, hash⟩ _ _ :=
    .toLeft (tree.children_eq_ok h.getElem?_bottom hleft) (.here _)
  exact hdown

theorem descends_right (h : tree.EndsWith bottom (.level nodes above)) {index : Nat}
    {left : Bytes32} (hleft : nodes[2 * index]? = some left) (hash : Bytes32) :
    tree.Descends ⟨.whole (bottom + 1 : Nat), .whole index, hash⟩ [⟨.left, left⟩]
      ⟨.whole bottom, .whole (rightIndex nodes.length index), nodes[2 * index + 1]?.getD left⟩ := by
  have hdown : tree.Descends ⟨.whole (bottom + 1 : Nat), .whole index, hash⟩ _ _ :=
    .toRight (tree.children_eq_ok h.getElem?_bottom hleft) (.here _)
  exact hdown

/-- The step from a node to the one over it leads back down to it. -/
theorem descends_sibling (h : tree.EndsWith bottom (.level nodes above)) {index : Nat}
    {node : Bytes32} {step : Step} (hnode : nodes[index]? = some node)
    (hstep : siblingStep nodes index = some step) (hash : Bytes32) :
    tree.Descends ⟨.whole (bottom + 1 : Nat), .whole (index / 2 : Nat), hash⟩ [step]
      ⟨.whole bottom, .whole index, node⟩ := by
  unfold siblingStep at hstep
  split_ifs at hstep with heven
  · have hindex : 2 * (index / 2) = index := by omega
    have hleft : nodes[2 * (index / 2)]? = some node := by rw [hindex, hnode]
    have hdown := h.descends_left hleft hash
    rw [hindex] at hdown
    rw [hnode, Option.map_eq_some_iff] at hstep
    obtain ⟨sibling, hsibling, rfl⟩ := hstep
    have hsame : nodes[index + 1]?.getD node = sibling := by
      cases hright : nodes[index + 1]? <;> simp_all
    rwa [hsame] at hdown
  · have hindex : 2 * (index / 2) = index - 1 := by omega
    have hnext : index - 1 + 1 = index := by omega
    have hwidth := (List.getElem?_eq_some_iff.mp hnode).1
    rw [Option.map_eq_some_iff] at hstep
    obtain ⟨left, hleft, rfl⟩ := hstep
    rw [← hindex] at hleft
    have hdown := h.descends_right hleft hash
    rwa [rightIndex, hindex, hnext, if_pos hwidth, hnode, Option.getD_some] at hdown

theorem eq_rootNode {root : Bytes32} (h : tree.EndsWith bottom (.top root)) :
    tree.rootNode = ⟨.whole bottom, .whole (0 : Nat), root⟩ := by
  have hdepth : tree.depth = bottom := h.depth
  rw [rootNode, hdepth, h.root]
  rfl

end EndsWith

end MerkleTree

/-- The parent of a node stands over two nodes of the level. Without a collision these are the node
and its sibling, on the sides that the step tells. -/
theorem exists_pair_of_parent {nodes others : List Bytes32} {step : Step} {node : Bytes32}
    {index : Nat} {pairs : List (Bytes32 × Bytes32)} (hothers : others = pairUp nodes)
    (hparent : others[index]? = some (step.parent node))
    (hpairs : NoBranchCollision (pairsOf nodes ++ step.pair node :: pairs)) :
    ∃ left, nodes[2 * index]? = some left ∧
      (left, nodes[2 * index + 1]?.getD left) = step.pair node := by
  rw [hothers, pairUp_eq_map, List.getElem?_map, Option.map_eq_some_iff] at hparent
  obtain ⟨pair, hpair, hhash⟩ := hparent
  have hsame : pair = step.pair node := by
    refine hpairs _ ?_ _ ?_ (hhash.trans (step.parent_eq node))
    · exact List.mem_append_left _ (List.mem_of_getElem? hpair)
    · exact List.mem_append_right _ List.mem_cons_self
  rw [getElem?_pairsOf, Option.map_eq_some_iff] at hpair
  obtain ⟨left, hleft, rfl⟩ := hpair
  exact ⟨left, hleft, hsame⟩

/-- The pairs of the widest level and of all steps are among those of all levels and all steps. -/
theorem NoBranchCollision.bottom {nodes : List Bytes32} {above : Levels}
    {pairs : List (Bytes32 × Bytes32)}
    (h : NoBranchCollision ((Levels.level nodes above).pairs ++ pairs)) :
    NoBranchCollision (pairsOf nodes ++ pairs) := by
  refine h.subset (List.append_subset.mpr ⟨fun pair hpair => ?_, List.subset_append_right _ _⟩)
  exact List.mem_append_left _ (List.mem_append_left _ hpair)

namespace Levels.IsBuilt

open MerkleTree

variable {levels : Levels} {tree : MerkleTree} {bottom : Nat}

/-- Steps that lead to the root, as many as there are levels, lead down from it to where they
began. -/
theorem exists_descends (h : levels.IsBuilt) (hends : tree.EndsWith bottom levels)
    {steps : List Step} {node : Bytes32} (hlength : steps.length = levels.depth)
    (hroot : InclusionProof.rootFrom ⟨steps⟩ node = levels.root)
    (hpairs : NoBranchCollision (levels.pairs ++ foldedPairs node steps)) :
    ∃ index : Nat, levels.base[index]? = some node ∧
      tree.Descends tree.rootNode steps.reverse ⟨.whole bottom, .whole index, node⟩ := by
  -- By induction from the top. The parent has a place on the level above, and without a collision
  -- the two nodes under that place are the node and its sibling.
  induction h generalizing bottom steps node with
  | top root =>
      obtain rfl := List.length_eq_zero_iff.mp hlength
      obtain rfl : node = root := hroot
      refine ⟨0, rfl, ?_⟩
      rw [hends.eq_rootNode]
      exact .here _
  | @level nodes above _ hbase _ ih =>
      cases steps with
      | nil => cases hlength
      | cons step steps =>
          obtain ⟨index, hindex, hdown⟩ := ih hends.succ (Nat.succ.inj hlength) hroot
            (hpairs.above (List.subset_cons_self _ _))
          obtain ⟨left, hleft, hsame⟩ := exists_pair_of_parent hbase hindex hpairs.bottom
          rw [List.reverse_cons]
          obtain ⟨side, sibling⟩ := step
          cases side with
          | left =>
              obtain ⟨rfl, rfl⟩ := Prod.mk.inj hsame
              exact ⟨_, getElem?_rightIndex hleft, hdown.append (hends.descends_right hleft _)⟩
          | right =>
              obtain ⟨rfl, rfl⟩ := Prod.mk.inj hsame
              exact ⟨_, hleft, hdown.append (hends.descends_left hleft _)⟩

/-- The path of a leaf leads down to it. -/
theorem descends_path (h : levels.IsBuilt) (hends : tree.EndsWith bottom levels) {index : Nat}
    {leaf : Bytes32} {steps : List Step} (hleaf : levels.base[index]? = some leaf)
    (hpath : levels.path index = some steps) :
    tree.Descends tree.rootNode steps.reverse ⟨.whole bottom, .whole index, leaf⟩ := by
  induction h generalizing bottom index leaf steps with
  | top root =>
      have hindex : index < 1 := (List.getElem?_eq_some_iff.mp hleaf).1
      obtain rfl := Nat.lt_one_iff.mp hindex
      cases hleaf
      cases hpath
      rw [hends.eq_rootNode]
      exact .here _
  | @level nodes above _ hbase _ ih =>
      rw [base] at hleaf
      obtain ⟨step, hstep, hparent⟩ := exists_siblingStep hleaf
      rw [path, hstep] at hpath
      simp only [Option.bind_eq_bind, Option.bind_some, Option.bind_eq_some_iff] at hpath
      obtain ⟨rest, hrest, hsteps⟩ := hpath
      cases hsteps
      rw [List.reverse_cons]
      exact (ih hends.succ (hbase ▸ hparent) hrest).append (hends.descends_sibling hleaf hstep _)

end Levels.IsBuilt

namespace MerkleTree

theorem node_rootNode (tree : MerkleTree) :
    tree.node (.whole tree.depth) (.whole 0) = .ok tree.rootNode :=
  tree.node_eq_ok tree.levels.getElem?_toList_depth rfl

theorem path_of_prove {tree : MerkleTree} {index : Nat} {proof : InclusionProof}
    (h : tree.prove (.int index) = .ok proof) :
    index < tree.leafCount ∧ tree.levels.path index = some proof.steps := by
  have hindex : (Datum.int index).toInt? = some (index : Int) := rfl
  simp only [prove, hindex, Option.bind_some, Int.natCast_nonneg, if_true, Int.toNat_natCast,
    prove?] at h
  split_ifs at h with hlt
  · cases hpath : tree.levels.path index with
    | none => simp [hpath] at h
    | some steps =>
        rw [hpath] at h
        cases h
        exact ⟨hlt, rfl⟩

/-- A proof that is accepted leads down to its leaf. -/
theorem descends_of_verifyData {tree : MerkleTree} {leaf : Bytes32} {proof : Datum}
    {read : InclusionProof}
    (h : verifyData (.bytes leaf.bytes) proof (.bytes tree.root.bytes) (.int tree.leafCount) = true)
    (hread : proof.toProof? = some read)
    (hpairs : NoBranchCollision (tree.levels.pairs ++ foldedPairs leaf read.steps)) :
    ∃ index : Nat, tree.leaves[index]? = some leaf ∧
      tree.Descends tree.rootNode read.steps.reverse ⟨.whole 0, .whole index, leaf⟩ := by
  obtain ⟨found, hfound, hroot, hlength⟩ := exists_rootFrom_of_verifyData h
  rw [hread, Option.some.injEq] at hfound
  subst hfound
  have hdepth : read.steps.length = tree.levels.depth := by
    rw [hlength _ rfl, ← tree.depth_eq]
    rfl
  rw [← tree.base_levels]
  exact tree.isBuilt.exists_descends (.all tree) hdepth hroot hpairs

theorem descends_of_prove {tree : MerkleTree} {index : Nat} {proof : InclusionProof}
    (h : tree.prove (.int index) = .ok proof) :
    ∃ leaf, tree.Descends tree.rootNode proof.steps.reverse leaf := by
  obtain ⟨hindex, hpath⟩ := path_of_prove h
  have hleaf : tree.levels.base[index]? = some tree.leaves[index] := by
    rw [tree.base_levels]
    exact List.getElem?_eq_getElem hindex
  exact ⟨_, tree.isBuilt.descends_path (.all tree) hleaf hpath⟩

/-- Every list of leaves has a tree, and with its number of leaves a proof is accepted only for the
leaf that it leads down to from the root, past its siblings from the last to the first, unless two
of the pairs that are hashed collide. So nothing but the leaves is accepted, and of the proofs with
the sides that a leaf has only its own. -/
theorem accepted_proof_descends {leaves : List Bytes32} (hleaves : leaves ≠ []) :
    ∃ tree, ofLeaves leaves = .ok tree ∧
      tree.node (.whole tree.depth) (.whole 0) = .ok tree.rootNode ∧
      (∀ (leaf : Bytes32) (proof : Datum),
        verifyData (.bytes leaf.bytes) proof (.bytes tree.root.bytes) (.int tree.leafCount) =
          true →
        ∃ read, proof.toProof? = some read ∧
          (NoBranchCollision (tree.levels.pairs ++ foldedPairs leaf read.steps) →
            leaf ∈ leaves ∧ ∃ node, tree.Descends tree.rootNode read.steps.reverse node ∧
              node.isLeaf = true ∧ node.hash = leaf)) ∧
      ∀ (index : Nat) (honest : InclusionProof), tree.prove (.int index) = .ok honest →
        ∀ (leaf : Bytes32) (proof : Datum) (altered : InclusionProof),
          proof.toProof? = some altered → altered ≠ honest →
          altered.steps.map (·.side) = honest.steps.map (·.side) →
          NoBranchCollision (tree.levels.pairs ++ foldedPairs leaf altered.steps) →
          verifyData (.bytes leaf.bytes) proof (.bytes tree.root.bytes) (.int tree.leafCount) =
            false := by
  obtain ⟨first, rest, rfl⟩ := List.exists_cons_of_ne_nil hleaves
  refine ⟨build first rest, rfl, node_rootNode _, fun leaf proof haccepted => ?_, ?_⟩
  · obtain ⟨read, hread, -⟩ := exists_rootFrom_of_verifyData haccepted
    refine ⟨read, hread, fun hpairs => ?_⟩
    obtain ⟨index, hindex, hdown⟩ := descends_of_verifyData haccepted hread hpairs
    exact ⟨List.mem_of_getElem? hindex, _, hdown, rfl, rfl⟩
  · intro index honest hhonest leaf proof altered hread hdiffers hsides hpairs
    rw [← Bool.not_eq_true]
    intro haccepted
    obtain ⟨_, -, hdown⟩ := descends_of_verifyData haccepted hread hpairs
    obtain ⟨node, hpath⟩ := descends_of_prove hhonest
    have hreversed : altered.steps.reverse.map (·.side) = honest.steps.reverse.map (·.side) := by
      rw [List.map_reverse, List.map_reverse, hsides]
    obtain ⟨hsteps, -⟩ := hdown.eq_of_sides hpath hreversed
    exact hdiffers (congrArg InclusionProof.mk (List.reverse_injective hsteps))

/-! ### Three leaves

The third of three leaves is its own sibling, so its node one level up stands over it twice. -/

namespace ThreeLeaves

def first : Bytes32 := .ofNat 1

def second : Bytes32 := .ofNat 2

def third : Bytes32 := .ofNat 3

def proof : InclusionProof :=
  ⟨[⟨.right, third⟩, ⟨.left, branchHash first second⟩]⟩

/-- The proof of the third leaf with the last byte of its first sibling changed. -/
def altered : InclusionProof :=
  ⟨[⟨.right, .ofNat 4⟩, ⟨.left, branchHash first second⟩]⟩

theorem prove_third : (build first [second, third]).prove (.int (2 : Nat)) = .ok proof := by
  decide +kernel

theorem verifyData_proof :
    verifyData (.bytes third.bytes) proof.toDatum (.bytes (build first [second, third]).root.bytes)
      (.int (3 : Nat)) = true := by
  have hleaf : (build first [second, third]).leaves[2]? = some third := rfl
  obtain ⟨found, hfound, hlength, hroot⟩ := exists_prove _ hleaf
  rw [prove_third, Except.ok.injEq] at hfound
  subst hfound
  exact verifyData_of_rootFrom _ (by decide) hlength hroot (Datum.toProof?_toDatum (by decide)) rfl

theorem noBranchCollision_altered :
    NoBranchCollision ((build first [second, third]).levels.pairs ++
      foldedPairs third altered.steps) := by
  decide +kernel

/-- The proof of the third leaf leads down to it, and is refused with a byte of a sibling
changed. -/
theorem accepted_proof_descends_three_leaves :
    ∃ tree node, ofLeaves [first, second, third] = .ok tree ∧
      tree.Descends tree.rootNode proof.steps.reverse node ∧ node.isLeaf = true ∧
      node.hash = third ∧
      verifyData (.bytes third.bytes) altered.toDatum (.bytes tree.root.bytes)
        (.int tree.leafCount) = false := by
  obtain ⟨tree, htree, -, hsound, hunique⟩ :=
    accepted_proof_descends (List.cons_ne_nil first [second, third])
  cases htree
  obtain ⟨read, hread, hdescends⟩ := hsound third proof.toDatum verifyData_proof
  have hproof : read = proof :=
    Option.some.inj (hread.symm.trans (Datum.toProof?_toDatum (by decide)))
  subst hproof
  have hpairs : NoBranchCollision ((build first [second, third]).levels.pairs ++
      foldedPairs third proof.steps) := by
    refine noBranchCollision_altered.subset (List.append_subset.mpr ⟨?_, ?_⟩)
    · exact List.subset_append_left _ _
    -- The pairs of the proof are those of the second half of the tree.
    · intro pair hpair
      exact List.mem_append_left _ (List.mem_cons_of_mem _ hpair)
  obtain ⟨-, node, hdown, hleaf, hhash⟩ := hdescends hpairs
  refine ⟨_, node, rfl, hdown, hleaf, hhash, ?_⟩
  exact hunique 2 proof prove_third third altered.toDatum altered
    (Datum.toProof?_toDatum (by decide)) (by decide) rfl noBranchCollision_altered

end ThreeLeaves

end MerkleTree

end QuorumTree
