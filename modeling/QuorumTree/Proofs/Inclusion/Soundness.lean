import QuorumTree.Proof.Untrusted
import QuorumTree.Proofs.Hash.Messages
import QuorumTree.Proofs.Tree

/-!
Soundness of proofs. Steps that lead to the root of a tree stay among its nodes as long as no two
pairs collide. With as many steps as the tree is deep they start at a leaf; with fewer they start at
a branch, and with more they pass a branch off as a leaf.
-/

namespace QuorumTree

/-- The two children that a step hashes, from the left. -/
def Step.pair (step : Step) (node : Bytes32) : Bytes32 × Bytes32 :=
  match step.side with
  | .left => (step.sibling, node)
  | .right => (node, step.sibling)

/-- The pairs that are hashed on the way from a node. -/
def foldedPairs : Bytes32 → List Step → List (Bytes32 × Bytes32)
  | _, [] => []
  | node, step :: steps => step.pair node :: foldedPairs (step.parent node) steps

theorem Step.parent_eq (step : Step) (node : Bytes32) :
    step.parent node = branchHash (step.pair node).1 (step.pair node).2 := by
  unfold Step.parent Step.pair
  cases step.side <;> rfl

theorem Step.eq_fst_or_eq_snd (step : Step) (node : Bytes32) :
    node = (step.pair node).1 ∨ node = (step.pair node).2 := by
  unfold Step.pair
  cases step.side
  · exact .inr rfl
  · exact .inl rfl

theorem rootFrom_append (node : Bytes32) (steps others : List Step) :
    InclusionProof.rootFrom ⟨steps ++ others⟩ node =
      InclusionProof.rootFrom ⟨others⟩ (InclusionProof.rootFrom ⟨steps⟩ node) :=
  List.foldl_append

theorem foldedPairs_append (node : Bytes32) (steps others : List Step) :
    foldedPairs node (steps ++ others) =
      foldedPairs node steps ++ foldedPairs (InclusionProof.rootFrom ⟨steps⟩ node) others := by
  induction steps generalizing node with
  | nil => rfl
  | cons step steps ih =>
      rw [List.cons_append, foldedPairs, foldedPairs, ih]
      rfl

/-- Steps end at the branch of the last pair that they hash. -/
theorem exists_foldedPairs_rootFrom {steps : List Step} (h : steps ≠ []) (node : Bytes32) :
    ∃ pair ∈ foldedPairs node steps,
      branchHash pair.1 pair.2 = InclusionProof.rootFrom ⟨steps⟩ node := by
  induction steps generalizing node with
  | nil => exact absurd rfl h
  | cons step steps ih =>
      cases steps with
      | nil => exact ⟨step.pair node, List.mem_cons_self, (step.parent_eq node).symm⟩
      | cons next steps =>
          obtain ⟨pair, hpair, hroot⟩ := ih (List.cons_ne_nil _ _) (step.parent node)
          exact ⟨pair, List.mem_cons_of_mem _ hpair, hroot⟩

/-- The levels above a level hash no pairs but those of all levels. -/
theorem NoBranchCollision.above {nodes : List Bytes32} {above : Levels}
    {pairs others : List (Bytes32 × Bytes32)}
    (h : NoBranchCollision ((Levels.level nodes above).pairs ++ pairs)) (hothers : others ⊆ pairs) :
    NoBranchCollision (above.pairs ++ others) := by
  refine h.subset (List.append_subset.mpr ⟨fun pair hpair => ?_, fun pair hpair => ?_⟩)
  · exact List.mem_append_left _ (List.mem_append_right _ hpair)
  · exact List.mem_append_right _ (hothers hpair)

namespace Levels.IsBuilt

variable {levels : Levels} {steps : List Step} {node : Bytes32}

/-- As many steps as there are levels lead to the root from nodes of the widest level only. -/
theorem mem_base (h : levels.IsBuilt) (hlength : steps.length = levels.depth)
    (hroot : InclusionProof.rootFrom ⟨steps⟩ node = levels.root)
    (hpairs : NoBranchCollision (levels.pairs ++ foldedPairs node steps)) :
    node ∈ levels.base := by
  -- By induction from the top: the parent stands on the level above, so it is the branch of a pair
  -- of this level, and without a collision that is the pair of the node and its sibling.
  induction h generalizing steps node with
  | top root =>
      obtain rfl := List.length_eq_zero_iff.mp hlength
      exact List.mem_singleton.mpr hroot
  | @level nodes above _ hbase _ ih =>
      cases steps with
      | nil => cases hlength
      | cons step steps =>
          have hparent : step.parent node ∈ pairUp nodes := by
            rw [← hbase]
            exact ih (Nat.succ.inj hlength) hroot (hpairs.above (List.subset_cons_self _ _))
          rw [pairUp_eq_map] at hparent
          obtain ⟨pair, hpair, hhash⟩ := List.mem_map.mp hparent
          have hsame : pair = step.pair node := by
            refine hpairs _ ?_ _ ?_ (hhash.trans (step.parent_eq node))
            · exact List.mem_append_left _ (List.mem_append_left _ hpair)
            · exact List.mem_append_right _ List.mem_cons_self
          obtain ⟨hleft, hright⟩ := mem_of_mem_pairsOf hpair
          rcases step.eq_fst_or_eq_snd node with hnode | hnode
          · rw [hnode, ← hsame]
            exact hleft
          · rw [hnode, ← hsame]
            exact hright

/-- Fewer steps lead to the root from branches only. -/
theorem exists_pair_of_length_lt (h : levels.IsBuilt) (hlength : steps.length < levels.depth)
    (hroot : InclusionProof.rootFrom ⟨steps⟩ node = levels.root)
    (hpairs : NoBranchCollision (levels.pairs ++ foldedPairs node steps)) :
    ∃ pair ∈ levels.pairs, branchHash pair.1 pair.2 = node := by
  -- Going up, the steps are at some level as many as there are levels left.
  induction h with
  | top root => cases hlength
  | @level nodes above _ hbase habove ih =>
      have hrest := hpairs.above (List.Subset.refl _)
      rcases Nat.lt_succ_iff_lt_or_eq.mp hlength with hlt | heq
      · obtain ⟨pair, hpair, hhash⟩ := ih hlt hroot hrest
        exact ⟨pair, List.mem_append_right _ hpair, hhash⟩
      · have hnode := habove.mem_base heq hroot hrest
        rw [hbase, pairUp_eq_map] at hnode
        obtain ⟨pair, hpair, hhash⟩ := List.mem_map.mp hnode
        exact ⟨pair, List.mem_append_left _ hpair, hhash⟩

/-- More steps pass through a branch that stands on the widest level. -/
theorem exists_mem_base_of_lt_length (h : levels.IsBuilt) (hlength : levels.depth < steps.length)
    (hroot : InclusionProof.rootFrom ⟨steps⟩ node = levels.root)
    (hpairs : NoBranchCollision (levels.pairs ++ foldedPairs node steps)) :
    ∃ pair ∈ foldedPairs node steps, branchHash pair.1 pair.2 ∈ levels.base := by
  -- The last steps, as many as there are levels, begin where the first ones end: at a branch.
  obtain ⟨lower, upper, rfl, hupper⟩ :
      ∃ lower upper, steps = lower ++ upper ∧ upper.length = levels.depth := by
    refine ⟨steps.take (steps.length - levels.depth), steps.drop (steps.length - levels.depth),
      (List.take_append_drop _ _).symm, ?_⟩
    rw [List.length_drop]
    omega
  have hlower : lower ≠ [] := by
    rintro rfl
    rw [List.nil_append] at hlength
    omega
  rw [rootFrom_append] at hroot
  rw [foldedPairs_append] at hpairs ⊢
  obtain ⟨pair, hpair, hhash⟩ := exists_foldedPairs_rootFrom hlower node
  refine ⟨pair, List.mem_append_left _ hpair, ?_⟩
  rw [hhash]
  refine h.mem_base hupper hroot
    (hpairs.subset (List.append_subset.mpr ⟨?_, fun other hother => ?_⟩))
  · exact List.subset_append_left _ _
  · exact List.mem_append_right _ (List.mem_append_right _ hother)

end Levels.IsBuilt

/-- What is accepted can be read as a proof that leads to the root, as long as the tree of the given
number of leaves is deep. -/
theorem exists_rootFrom_of_verifyData {leaf root : Bytes32} {proof leafCount : Datum}
    (h : verifyData (.bytes leaf.bytes) proof (.bytes root.bytes) leafCount = true) :
    ∃ read, proof.toProof? = some read ∧ read.rootFrom leaf = root ∧
      ∀ count : Nat, leafCount = .int count → read.steps.length = treeDepth count := by
  simp only [verifyData, Datum.toHash?, Bytes32.ofBytes?_bytes] at h
  split at h
  · next read leaf root found hread hleaf hroot hfound =>
      cases hleaf
      cases hroot
      simp only [InclusionProof.verify, Bool.and_eq_true, beq_iff_eq] at h
      obtain ⟨⟨-, hlength⟩, hfold⟩ := h
      refine ⟨read, hread, hfold, ?_⟩
      rintro count rfl
      have hcount : found = some (count : Int) := (Option.some.inj hfound).symm
      subst hcount
      simp only [Bool.and_eq_true, beq_iff_eq] at hlength
      exact hlength.2
  · cases h

end QuorumTree
