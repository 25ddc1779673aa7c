import Mathlib.Data.List.Nodup
import QuorumTree.Proofs.Inclusion.Codec
import QuorumTree.Proofs.Inclusion.Position

/-!
How far an accepted proof can be changed. The leaf decides every step but one thing: a node left
over at the end of a level is hashed with itself, and then nothing tells on which side the sibling
stood.
-/

namespace QuorumTree

/-- The node at an index is left over at the end of its level, and so its own sibling. -/
def IsLeftOver (nodes : List Bytes32) (index : Nat) : Prop :=
  index % 2 = 0 ∧ index + 1 = nodes.length

/-- Two steps from the node at an index have one sibling, and on one side unless that is the node
itself. -/
structure Step.AgreesAt (nodes : List Bytes32) (index : Nat) (step other : Step) : Prop where
  sibling : step.sibling = other.sibling
  side : ¬ IsLeftOver nodes index → step.side = other.side

/-! ### One level -/

/-- The pair that a step hashes tells where the node stands, and all of its step to the node above
but the side on which a node has itself. -/
theorem exists_agreesAt {nodes : List Bytes32} {above : Nat} {step : Step} {node left : Bytes32}
    (hleft : nodes[2 * above]? = some left)
    (hpair : (left, nodes[2 * above + 1]?.getD left) = step.pair node) :
    ∃ index other, index / 2 = above ∧ nodes[index]? = some node ∧
      siblingStep nodes index = some other ∧ step.AgreesAt nodes index other := by
  have heven : 2 * above % 2 = 0 := by omega
  have hhalf : 2 * above / 2 = above := by omega
  have hsibling : siblingStep nodes (2 * above) =
      some ⟨.right, nodes[2 * above + 1]?.getD left⟩ := by
    rw [siblingStep, if_pos heven, hleft]
    cases nodes[2 * above + 1]? <;> rfl
  obtain ⟨side, sibling⟩ := step
  cases side with
  | right =>
      obtain ⟨rfl, rfl⟩ := Prod.mk.inj hpair
      exact ⟨2 * above, _, hhalf, hleft, hsibling, rfl, fun _ => rfl⟩
  | left =>
      obtain ⟨rfl, rfl⟩ := Prod.mk.inj hpair
      cases hright : nodes[2 * above + 1]? with
      | none =>
          have hwidth := List.getElem?_eq_none_iff.mp hright
          have hlt := (List.getElem?_eq_some_iff.mp hleft).1
          rw [hright] at hsibling
          refine ⟨2 * above, _, hhalf, hleft, hsibling, rfl, fun h => absurd ⟨heven, ?_⟩ h⟩
          omega
      | some right =>
          have hodd : ¬ (2 * above + 1) % 2 = 0 := by omega
          refine ⟨2 * above + 1, ⟨.left, left⟩, by omega, hright, ?_, rfl, fun _ => rfl⟩
          rw [siblingStep, if_neg hodd, Nat.add_sub_cancel, hleft]
          rfl

/-- Steps that agree lead to one parent, whichever side a node has itself on. -/
theorem Step.AgreesAt.parent_eq {nodes : List Bytes32} {index : Nat} {step other : Step}
    {node : Bytes32} (h : step.AgreesAt nodes index other) (hnode : nodes[index]? = some node)
    (hother : siblingStep nodes index = some other) : step.parent node = other.parent node := by
  obtain ⟨side, sibling⟩ := step
  obtain ⟨otherSide, otherSibling⟩ := other
  obtain rfl : sibling = otherSibling := h.sibling
  by_cases hleftOver : IsLeftOver nodes index
  · obtain ⟨heven, hlast⟩ := hleftOver
    have hnext : nodes[index + 1]? = none := List.getElem?_eq_none (Nat.le_of_eq hlast.symm)
    rw [siblingStep, if_pos heven, hnext, hnode] at hother
    cases hother
    cases side <;> rfl
  · obtain rfl : side = otherSide := h.side hleftOver
    rfl

/-! ### All levels -/

namespace Levels

/-- The node on a level over the leaf at an index is left over there. -/
def IsLeftOverAt (levels : Levels) (index level : Nat) : Prop :=
  ∃ nodes, levels.toList[level]? = some nodes ∧ IsLeftOver nodes (index / 2 ^ level)

/-- Two ways up from the leaf at an index have the same siblings, and on the same sides except over
nodes that are left over. -/
structure AgreeFrom (levels : Levels) (index : Nat) (steps others : List Step) : Prop where
  siblings : steps.map (·.sibling) = others.map (·.sibling)
  sides : ∀ (level : Nat) (step other : Step), steps[level]? = some step →
    others[level]? = some other → ¬ levels.IsLeftOverAt index level → step.side = other.side

theorem isLeftOverAt_zero {nodes : List Bytes32} {above : Levels} {index : Nat} :
    (level nodes above).IsLeftOverAt index 0 ↔ IsLeftOver nodes index := by
  simp [IsLeftOverAt, toList]

theorem isLeftOverAt_succ {nodes : List Bytes32} {above : Levels} {index height : Nat} :
    (level nodes above).IsLeftOverAt index (height + 1) ↔
      above.IsLeftOverAt (index / 2) height := by
  rw [IsLeftOverAt, IsLeftOverAt, Nat.div_div_eq_div_mul, ← Nat.pow_succ']
  rfl

theorem agreeFrom_cons {nodes : List Bytes32} {above : Levels} {index : Nat} {step other : Step}
    {steps others : List Step} :
    (level nodes above).AgreeFrom index (step :: steps) (other :: others) ↔
      step.AgreesAt nodes index other ∧ above.AgreeFrom (index / 2) steps others := by
  constructor
  · intro h
    obtain ⟨hsibling, hsiblings⟩ := List.cons.inj h.siblings
    refine ⟨⟨hsibling, fun hside => ?_⟩, hsiblings, fun height step other hstep hother hside => ?_⟩
    · exact h.sides 0 step other rfl rfl (isLeftOverAt_zero.not.mpr hside)
    · exact h.sides (height + 1) step other hstep hother (isLeftOverAt_succ.not.mpr hside)
  · rintro ⟨hfirst, hrest⟩
    refine ⟨?_, fun height first second hfirsts hseconds hside => ?_⟩
    · rw [List.map_cons, List.map_cons, hfirst.sibling, hrest.siblings]
    · cases height with
      | zero =>
          cases hfirsts
          cases hseconds
          exact hfirst.side (isLeftOverAt_zero.not.mp hside)
      | succ height =>
          exact hrest.sides height first second hfirsts hseconds (isLeftOverAt_succ.not.mp hside)

theorem AgreeFrom.length_eq {levels : Levels} {index : Nat} {steps others : List Step}
    (h : levels.AgreeFrom index steps others) : steps.length = others.length := by
  have hlengths := congrArg List.length h.siblings
  rwa [List.length_map, List.length_map] at hlengths

theorem exists_path_cons {nodes : List Bytes32} {above : Levels} {index : Nat} {steps : List Step}
    (h : (level nodes above).path index = some steps) :
    ∃ step rest, siblingStep nodes index = some step ∧ above.path (index / 2) = some rest ∧
      steps = step :: rest := by
  simp only [path, Option.bind_eq_bind, Option.bind_eq_some_iff] at h
  obtain ⟨step, hstep, rest, hrest, hsteps⟩ := h
  exact ⟨step, rest, hstep, hrest, (Option.some.inj hsteps).symm⟩

namespace IsBuilt

variable {levels : Levels}

/-- Steps that lead to the root, as many as there are levels, agree with the path of some leaf. -/
theorem exists_agreeFrom (h : levels.IsBuilt) {steps : List Step} {node : Bytes32}
    (hlength : steps.length = levels.depth)
    (hroot : InclusionProof.rootFrom ⟨steps⟩ node = levels.root)
    (hpairs : NoBranchCollision (levels.pairs ++ foldedPairs node steps)) :
    ∃ index others, levels.base[index]? = some node ∧ levels.path index = some others ∧
      levels.AgreeFrom index steps others := by
  -- By induction from the top. The parent has a place on the level above, and without a collision
  -- the first step hashes the two nodes under that place.
  induction h generalizing steps node with
  | top root =>
      obtain rfl := List.length_eq_zero_iff.mp hlength
      obtain rfl : node = root := hroot
      exact ⟨0, [], rfl, rfl, rfl, fun _ _ _ hstep => nomatch hstep⟩
  | @level nodes above _ hbase _ ih =>
      cases steps with
      | nil => cases hlength
      | cons step steps =>
          obtain ⟨place, others, hplace, hpath, hagree⟩ := ih (Nat.succ.inj hlength) hroot
            (hpairs.above (List.subset_cons_self _ _))
          obtain ⟨left, hleft, hpair⟩ := exists_pair_of_parent hbase hplace hpairs.bottom
          obtain ⟨index, other, rfl, hnode, hother, hfirst⟩ := exists_agreesAt hleft hpair
          refine ⟨index, other :: others, hnode, ?_, agreeFrom_cons.mpr ⟨hfirst, hagree⟩⟩
          simp [path, hother, hpath]

/-- Steps that agree with the path of a leaf lead to the root. -/
theorem rootFrom_of_agreeFrom (h : levels.IsBuilt) {index : Nat} {leaf : Bytes32}
    {steps others : List Step} (hleaf : levels.base[index]? = some leaf)
    (hpath : levels.path index = some others) (hagree : levels.AgreeFrom index steps others) :
    InclusionProof.rootFrom ⟨steps⟩ leaf = levels.root := by
  induction h generalizing index leaf steps others with
  | top root =>
      have hindex : index < 1 := (List.getElem?_eq_some_iff.mp hleaf).1
      obtain rfl := Nat.lt_one_iff.mp hindex
      cases hleaf
      cases hpath
      obtain rfl := List.length_eq_zero_iff.mp hagree.length_eq
      rfl
  | @level nodes above _ hbase _ ih =>
      obtain ⟨other, others, hother, hrest, rfl⟩ := exists_path_cons hpath
      cases steps with
      | nil => cases hagree.length_eq
      | cons step steps =>
          obtain ⟨hfirst, hagree⟩ := agreeFrom_cons.mp hagree
          rw [base] at hleaf
          obtain ⟨found, hfound, hparent⟩ := exists_siblingStep hleaf
          rw [hother, Option.some.injEq] at hfound
          subst hfound
          rw [rootFrom_cons, hfirst.parent_eq hleaf hother]
          exact ih (hbase ▸ hparent) hrest hagree

end IsBuilt

end Levels

/-! ### Accepted proofs -/

/-- The step with its sibling said to be on the other side. -/
def Step.flipped (step : Step) : Step :=
  ⟨match step.side with
    | .left => .right
    | .right => .left, step.sibling⟩

theorem Step.side_flipped_ne (step : Step) : step.flipped.side ≠ step.side := by
  obtain ⟨side, sibling⟩ := step
  cases side <;> exact nofun

/-- The proof with the sides of the chosen steps flipped. -/
def InclusionProof.flippedAt (proof : InclusionProof) (chosen : Nat → Bool) : InclusionProof :=
  ⟨proof.steps.mapIdx fun level step => if chosen level then step.flipped else step⟩

/-- A proof agrees with itself after flips exactly where these are over nodes that are left over. -/
theorem Levels.agreeFrom_flippedAt {levels : Levels} {index : Nat} {proof : InclusionProof}
    {chosen : Nat → Bool} :
    levels.AgreeFrom index (proof.flippedAt chosen).steps proof.steps ↔
      ∀ level < proof.steps.length, chosen level = true → levels.IsLeftOverAt index level := by
  constructor
  · intro h level hlevel hchosen
    by_contra hleftOver
    have hstep := List.getElem?_eq_getElem hlevel
    have hflipped : (proof.flippedAt chosen).steps[level]? = some proof.steps[level].flipped := by
      rw [InclusionProof.flippedAt, List.getElem?_mapIdx, hstep, Option.map_some, if_pos hchosen]
    exact Step.side_flipped_ne _ (h.sides level _ _ hflipped hstep hleftOver)
  · intro h
    refine ⟨List.ext_getElem? fun level => ?_, fun level step other hstep hother hleftOver => ?_⟩
    · simp only [InclusionProof.flippedAt, List.getElem?_map, List.getElem?_mapIdx, Option.map_map]
      congr 1
      funext step
      rw [Function.comp_apply]
      split_ifs <;> rfl
    · have hlevel := (List.getElem?_eq_some_iff.mp hother).1
      rw [InclusionProof.flippedAt, List.getElem?_mapIdx, hother, Option.map_some,
        if_neg fun hchosen => hleftOver (h level hlevel hchosen), Option.some.injEq] at hstep
      rw [hstep]

namespace MerkleTree

/-- A proof of a leaf is accepted exactly when it agrees with the one that the tree gives. -/
theorem verifyData_iff_agreeFrom {tree : MerkleTree} (hdistinct : tree.leaves.Nodup) {index : Nat}
    {leaf : Bytes32} {honest read : InclusionProof} {proof : Datum}
    (hleaf : tree.leaves[index]? = some leaf) (hhonest : tree.prove (.int index) = .ok honest)
    (hread : proof.toProof? = some read)
    (hpairs : NoBranchCollision (tree.levels.pairs ++ foldedPairs leaf read.steps)) :
    verifyData (.bytes leaf.bytes) proof (.bytes tree.root.bytes) (.int tree.leafCount) = true ↔
      tree.levels.AgreeFrom index read.steps honest.steps := by
  obtain ⟨-, hpath⟩ := path_of_prove hhonest
  constructor
  · intro haccepted
    obtain ⟨found, hfound, hroot, hlength⟩ := exists_rootFrom_of_verifyData haccepted
    rw [hread, Option.some.injEq] at hfound
    subst hfound
    have hdepth : read.steps.length = tree.levels.depth := by
      rw [hlength _ rfl, ← tree.depth_eq]
      rfl
    obtain ⟨place, others, hplace, hothers, hagree⟩ :=
      tree.isBuilt.exists_agreeFrom hdepth hroot hpairs
    rw [base_levels] at hplace
    obtain ⟨_, hplace⟩ := List.getElem?_eq_some_iff.mp hplace
    obtain ⟨_, hleaf⟩ := List.getElem?_eq_some_iff.mp hleaf
    obtain rfl : place = index :=
      (List.Nodup.getElem_inj_iff hdistinct).mp (hplace.trans hleaf.symm)
    rw [hpath, Option.some.injEq] at hothers
    rwa [hothers]
  · intro hagree
    obtain ⟨found, hfound, hlength, -⟩ := tree.exists_prove hleaf
    rw [hhonest, Except.ok.injEq] at hfound
    subst hfound
    have hdepth : read.steps.length = tree.depth := hagree.length_eq.trans hlength
    have hcount : tree.leafCount ≤ 2 ^ maxProofDepth := by
      rw [← treeDepth_le_iff, ← tree.depth_eq, ← hdepth]
      exact (Datum.toProof?_eq_some_iff.mp hread).1
    rw [← tree.base_levels] at hleaf
    exact tree.verifyData_of_rootFrom hcount hdepth
      (tree.isBuilt.rootFrom_of_agreeFrom hleaf hpath hagree) hread rfl

/-- Over distinct leaves, what is accepted for a leaf with the number of leaves has the steps of the
proof that the tree gives for it, except for the sides on which left over nodes have themselves,
unless two of the pairs that are hashed collide. All such proofs are accepted. So flipping sides of
that proof makes it be refused, unless all of them are sides of left over nodes. -/
theorem accepted_proof_agrees {leaves : List Bytes32} (hleaves : leaves ≠ [])
    (hdistinct : leaves.Nodup) :
    ∃ tree, ofLeaves leaves = .ok tree ∧
      ∀ (index : Nat) (leaf : Bytes32), leaves[index]? = some leaf →
        ∃ honest : InclusionProof, tree.prove (.int index) = .ok honest ∧
          (∀ proof : Datum,
            verifyData (.bytes leaf.bytes) proof (.bytes tree.root.bytes) (.int tree.leafCount) =
              true →
            ∃ read, proof.toProof? = some read) ∧
          (∀ (proof : Datum) (read : InclusionProof), proof.toProof? = some read →
            NoBranchCollision (tree.levels.pairs ++ foldedPairs leaf read.steps) →
            (verifyData (.bytes leaf.bytes) proof (.bytes tree.root.bytes) (.int tree.leafCount) =
                true ↔
              tree.levels.AgreeFrom index read.steps honest.steps)) ∧
          ∀ (proof : Datum) (chosen : Nat → Bool),
            proof.toProof? = some (honest.flippedAt chosen) →
            NoBranchCollision (tree.levels.pairs ++
              foldedPairs leaf (honest.flippedAt chosen).steps) →
            (∃ level < honest.steps.length,
              chosen level = true ∧ ¬ tree.levels.IsLeftOverAt index level) →
            verifyData (.bytes leaf.bytes) proof (.bytes tree.root.bytes) (.int tree.leafCount) =
              false := by
  obtain ⟨first, rest, rfl⟩ := List.exists_cons_of_ne_nil hleaves
  refine ⟨build first rest, rfl, fun index leaf hleaf => ?_⟩
  obtain ⟨honest, hhonest, -, -⟩ := exists_prove (build first rest) hleaf
  have hnodup : (build first rest).leaves.Nodup := hdistinct
  have hiff (proof : Datum) (read : InclusionProof) (hread : proof.toProof? = some read)
      (hpairs : NoBranchCollision ((build first rest).levels.pairs ++
        foldedPairs leaf read.steps)) :=
    verifyData_iff_agreeFrom hnodup hleaf hhonest hread hpairs
  refine ⟨honest, hhonest, fun proof haccepted => ?_, hiff, ?_⟩
  · obtain ⟨read, hread, -⟩ := exists_rootFrom_of_verifyData haccepted
    exact ⟨read, hread⟩
  · rintro proof chosen hread hpairs ⟨level, hlevel, hchosen, hleftOver⟩
    rw [← Bool.not_eq_true, hiff _ _ hread hpairs, Levels.agreeFrom_flippedAt]
    exact fun h => hleftOver (h level hlevel hchosen)

namespace ThreeLeaves

/-- The node over the third leaf is the second of two. -/
theorem not_isLeftOverAt_one : ¬ (build first [second, third]).levels.IsLeftOverAt 2 1 := by
  rintro ⟨nodes, hnodes, heven, -⟩
  exact absurd heven (by decide)

/-- The proof of the third leaf with its second step flipped is refused. -/
theorem accepted_proof_agrees_three_leaves :
    [first, second, third] ≠ [] ∧ [first, second, third].Nodup ∧
      ∃ tree, ofLeaves [first, second, third] = .ok tree ∧ tree.prove (.int (2 : Nat)) = .ok proof ∧
        verifyData (.bytes third.bytes) (proof.flippedAt (· == 1)).toDatum (.bytes tree.root.bytes)
          (.int tree.leafCount) = false := by
  have hleaves : [first, second, third] ≠ [] := List.cons_ne_nil _ _
  have hdistinct : [first, second, third].Nodup := by decide
  obtain ⟨tree, htree, hproofs⟩ := accepted_proof_agrees hleaves hdistinct
  cases htree
  obtain ⟨honest, hhonest, -, -, hflipped⟩ := hproofs 2 third rfl
  have hsame := hhonest.symm.trans prove_third
  cases hsame
  refine ⟨hleaves, hdistinct, _, rfl, prove_third, ?_⟩
  refine hflipped _ (· == 1) (Datum.toProof?_toDatum (by decide)) (by decide +kernel) ?_
  exact ⟨1, by decide, rfl, not_isLeftOverAt_one⟩

/-- The third leaf is left over, so its proof with the first step flipped is another proof of it,
though no two pairs collide. -/
theorem flipped_proof_accepted :
    ∃ tree, ofLeaves [first, second, third] = .ok tree ∧ [first, second, third].Nodup ∧
      tree.prove (.int (2 : Nat)) = .ok proof ∧ proof.flippedAt (· == 0) ≠ proof ∧
      NoBranchCollision (tree.levels.pairs ++
        foldedPairs third (proof.flippedAt (· == 0)).steps) ∧
      verifyData (.bytes third.bytes) (proof.flippedAt (· == 0)).toDatum (.bytes tree.root.bytes)
        (.int tree.leafCount) = true := by
  have hpairs : NoBranchCollision ((build first [second, third]).levels.pairs ++
      foldedPairs third (proof.flippedAt (· == 0)).steps) := by
    decide +kernel
  have hleftOver : (build first [second, third]).levels.IsLeftOverAt 2 0 :=
    ⟨_, rfl, rfl, rfl⟩
  refine ⟨_, rfl, by decide, prove_third, by decide, hpairs, ?_⟩
  have hread : (proof.flippedAt (· == 0)).toDatum.toProof? = some (proof.flippedAt (· == 0)) :=
    Datum.toProof?_toDatum (by decide)
  refine (verifyData_iff_agreeFrom (by decide) rfl prove_third hread hpairs).mpr ?_
  rw [Levels.agreeFrom_flippedAt]
  intro level hlevel hchosen
  obtain rfl : level = 0 := by simpa using hchosen
  exact hleftOver

end ThreeLeaves

end MerkleTree

end QuorumTree
