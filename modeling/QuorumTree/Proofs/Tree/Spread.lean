import QuorumTree.Proofs.Hash.Messages
import QuorumTree.Proofs.Tree

/-!
What a root binds. Going down from the root in every possible way, a node left over at the end of a
level is met twice, so a tree looks from above as if it had as many leaves as there are ways down.
The root binds this spread of the leaves, and no more: leaves with one spread have one root, and a
list that writes out some of the repetitions has the root of the list without them. Nor does a root
tell how far down the leaves are; every level of a tree has the root of the tree.
-/

namespace QuorumTree

variable {α β : Type}

theorem pairOff_map (f : α → β) (items : List α) :
    pairOff (items.map f) = (pairOff items).map (Prod.map f f) := by
  fun_induction pairOff items with
  | case1 a b rest ih =>
      rw [List.map_cons, List.map_cons, pairOff, ih]
      rfl
  | case2 a => rfl
  | case3 => rfl

theorem length_pairOff (items : List α) : (pairOff items).length = (items.length + 1) / 2 := by
  fun_induction pairOff items with
  | case1 a b rest ih => simp only [List.length_cons, ih]; omega
  | case2 a => simp
  | case3 => simp

/-- Lists of one length are told by their pairs. -/
theorem pairOff_injective {items others : List α} (hlength : items.length = others.length)
    (h : pairOff items = pairOff others) : items = others := by
  induction items using pairOff.induct generalizing others with
  | case1 a b rest ih =>
      rcases others with _ | ⟨c, _ | ⟨d, others⟩⟩
      · cases hlength
      · cases hlength
      · rw [pairOff, pairOff, List.cons.injEq, Prod.mk.injEq] at h
        obtain ⟨⟨rfl, rfl⟩, hrest⟩ := h
        rw [ih (Nat.succ.inj (Nat.succ.inj hlength)) hrest]
  | case2 a =>
      obtain ⟨c, rfl⟩ := List.length_eq_one_iff.mp hlength.symm
      cases h
      rfl
  | case3 => exact (List.length_eq_zero_iff.mp hlength.symm).symm

/-- The items of pairs, one after the other. -/
def unpair (pairs : List (α × α)) : List α :=
  pairs.flatMap fun pair => [pair.1, pair.2]

theorem unpair_map (f : α → β) (pairs : List (α × α)) :
    unpair (pairs.map (Prod.map f f)) = (unpair pairs).map f := by
  induction pairs with
  | nil => rfl
  | cons pair pairs ih =>
      change f pair.1 :: f pair.2 :: unpair _ = f pair.1 :: f pair.2 :: (unpair pairs).map f
      rw [ih]

theorem unpair_injective {pairs others : List (α × α)} (h : unpair pairs = unpair others) :
    pairs = others := by
  induction pairs generalizing others with
  | nil =>
      cases others with
      | nil => rfl
      | cons => cases h
  | cons pair pairs ih =>
      cases others with
      | nil => cases h
      | cons other others =>
          obtain ⟨hleft, hrest⟩ := List.cons.inj h
          obtain ⟨hright, hrest⟩ := List.cons.inj hrest
          rw [ih hrest, Prod.ext hleft hright]

/-- The items that the ways down from a single node lead to, from left to right, when the items are
paired off so many times. -/
def spread : Nat → {α : Type} → List α → List α
  | 0, _, items => items
  | depth + 1, _, items => unpair (spread depth (pairOff items))

theorem spread_map (f : α → β) (depth : Nat) (items : List α) :
    spread depth (items.map f) = (spread depth items).map f := by
  induction depth generalizing α β with
  | zero => rfl
  | succ depth ih => rw [spread, spread, pairOff_map, ih, unpair_map]

/-- Repetitions are all that is spread. -/
theorem mem_of_mem_spread {depth : Nat} {items : List α} {item : α}
    (h : item ∈ spread depth items) : item ∈ items := by
  induction depth generalizing α with
  | zero => exact h
  | succ depth ih =>
      obtain ⟨pair, hpair, hitem⟩ := List.mem_flatMap.mp h
      obtain ⟨hleft, hright⟩ := mem_of_mem_pairOff (ih hpair)
      rcases List.mem_pair.mp hitem with rfl | rfl
      · exact hleft
      · exact hright

/-- Lists of one length are told by their spread. -/
theorem spread_injective {depth : Nat} {items others : List α}
    (hlength : items.length = others.length) (h : spread depth items = spread depth others) :
    items = others := by
  induction depth generalizing α with
  | zero => exact h
  | succ depth ih =>
      refine pairOff_injective hlength (ih ?_ (unpair_injective h))
      rw [length_pairOff, length_pairOff, hlength]

/-- A map that tells the items of two lists apart tells the lists apart. -/
theorem eq_of_map_eq {f : α → β} {items others : List α}
    (hf : ∀ a ∈ items, ∀ b ∈ others, f a = f b → a = b) (h : items.map f = others.map f) :
    items = others := by
  induction items generalizing others with
  | nil => exact (List.map_eq_nil_iff.mp h.symm).symm
  | cons a items ih =>
      cases others with
      | nil => cases h
      | cons b others =>
          obtain ⟨hfirst, hrest⟩ := List.cons.inj h
          rw [hf a List.mem_cons_self b List.mem_cons_self hfirst]
          rw [ih (fun c hc d hd => hf c (List.mem_cons_of_mem _ hc) d (List.mem_cons_of_mem _ hd))
            hrest]

theorem spread_pairUp (depth : Nat) (nodes : List Bytes32) :
    spread depth (pairUp nodes) =
      (spread depth (pairsOf nodes)).map fun pair => branchHash pair.1 pair.2 := by
  rw [pairUp_eq_map, spread_map]

namespace Levels

variable {levels others : Levels}

/-- The levels from one of them up; the top is never left out. -/
def upper : Levels → Nat → Levels
  | top root, _ => top root
  | level nodes above, 0 => level nodes above
  | level _ above, count + 1 => above.upper count

theorem upper_zero (levels : Levels) : levels.upper 0 = levels := by
  cases levels <;> rfl

theorem root_upper (levels : Levels) (count : Nat) : (levels.upper count).root = levels.root := by
  fun_induction upper levels count with
  | case1 root count => rfl
  | case2 nodes above => rfl
  | case3 nodes above count ih => exact ih

theorem depth_upper (levels : Levels) (count : Nat) :
    (levels.upper count).depth = levels.depth - count := by
  fun_induction upper levels count with
  | case1 root count => simp [depth]
  | case2 nodes above => rfl
  | case3 nodes above count ih => rw [ih, depth, Nat.add_sub_add_right]

theorem IsBuilt.upper (h : levels.IsBuilt) (count : Nat) : (levels.upper count).IsBuilt := by
  fun_induction Levels.upper levels count with
  | case1 root count => exact h
  | case2 nodes above => exact h
  | case3 nodes above count ih =>
      obtain _ | ⟨-, -, habove⟩ := h
      exact ih habove

theorem pairs_upper_subset (levels : Levels) (count : Nat) :
    (levels.upper count).pairs ⊆ levels.pairs := by
  fun_induction upper levels count with
  | case1 root count => exact List.Subset.refl _
  | case2 nodes above => exact List.Subset.refl _
  | case3 nodes above count ih => exact List.subset_append_of_subset_right _ ih

theorem base_upper {count : Nat} {nodes : List Bytes32} (h : levels.toList[count]? = some nodes) :
    (levels.upper count).base = nodes := by
  fun_induction upper levels count with
  | case1 root count =>
      obtain ⟨hcount, hnodes⟩ := List.getElem?_eq_some_iff.mp h
      have hzero : count = 0 := Nat.lt_one_iff.mp hcount
      subst hzero
      exact hnodes
  | case2 nodes' above => exact Option.some.inj h
  | case3 nodes' above count ih => exact ih h

theorem IsBuilt.base_ne_nil (h : levels.IsBuilt) : levels.base ≠ [] := by
  cases h with
  | top root => exact List.cons_ne_nil _ _
  | @level nodes above hwidth _ _ =>
      change nodes ≠ []
      rintro rfl
      exact absurd hwidth (by decide)

/-- Levels of one depth with one spread have one root. -/
theorem IsBuilt.root_eq_of_spread_eq (h : levels.IsBuilt) (hothers : others.IsBuilt)
    (hdepth : levels.depth = others.depth)
    (hspread : spread levels.depth levels.base = spread levels.depth others.base) :
    levels.root = others.root := by
  induction h generalizing others with
  | top root =>
      cases hothers with
      | top other => exact (List.cons.inj hspread).1
      | level => cases hdepth
  | @level nodes above _ hbase _ ih =>
      cases hothers with
      | top => cases hdepth
      | @level nodes' above' _ hbase' habove' =>
          have hpairs :
              spread above.depth (pairsOf nodes) = spread above.depth (pairsOf nodes') := by
            rw [pairsOf_eq_pairOff, pairsOf_eq_pairOff]
            exact unpair_injective hspread
          have habove : spread above.depth above.base = spread above.depth above'.base := by
            rw [hbase, hbase', spread_pairUp, spread_pairUp, hpairs]
          change above.root = above'.root
          exact ih habove' (Nat.succ.inj hdepth) habove

/-- Where no branches collide, levels of one depth with one root have one spread. -/
theorem IsBuilt.spread_eq_of_root_eq (h : levels.IsBuilt) (hothers : others.IsBuilt)
    (hdepth : levels.depth = others.depth)
    (hpairs : NoBranchCollision (levels.pairs ++ others.pairs))
    (hroot : levels.root = others.root) :
    spread levels.depth levels.base = spread levels.depth others.base := by
  induction h generalizing others with
  | top root =>
      cases hothers with
      | top other => exact congrArg (fun root => [root]) hroot
      | level => cases hdepth
  | @level nodes above _ hbase _ ih =>
      cases hothers with
      | top => cases hdepth
      | @level nodes' above' _ hbase' habove' =>
          have hupper : NoBranchCollision (above.pairs ++ above'.pairs) := by
            refine hpairs.subset (List.append_subset.mpr ⟨?_, ?_⟩)
            · exact List.subset_append_of_subset_left _ (List.subset_append_right _ _)
            · exact List.subset_append_of_subset_right _ (List.subset_append_right _ _)
          have habove : spread above.depth above.base = spread above.depth above'.base :=
            ih habove' (Nat.succ.inj hdepth) hupper hroot
          rw [hbase, hbase', spread_pairUp, spread_pairUp] at habove
          -- What is spread are pairs of the two levels, whose branches do not collide.
          have hsame :
              spread above.depth (pairsOf nodes) = spread above.depth (pairsOf nodes') := by
            refine eq_of_map_eq (fun a ha b hb => hpairs a ?_ b ?_) habove
            · exact List.mem_append_left _ (List.mem_append_left _ (mem_of_mem_spread ha))
            · exact List.mem_append_right _ (List.mem_append_left _ (mem_of_mem_spread hb))
          rw [pairsOf_eq_pairOff, pairsOf_eq_pairOff] at hsame
          exact congrArg unpair hsame

theorem IsBuilt.root_eq_iff (h : levels.IsBuilt) (hothers : others.IsBuilt)
    (hdepth : levels.depth = others.depth)
    (hpairs : NoBranchCollision (levels.pairs ++ others.pairs)) :
    levels.root = others.root ↔
      spread levels.depth levels.base = spread levels.depth others.base :=
  ⟨h.spread_eq_of_root_eq hothers hdepth hpairs, h.root_eq_of_spread_eq hothers hdepth⟩

theorem IsBuilt.root_eq_of_base_eq (h : levels.IsBuilt) (hothers : others.IsBuilt)
    (hbase : levels.base = others.base) : levels.root = others.root := by
  refine h.root_eq_of_spread_eq hothers ?_ (by rw [hbase])
  rw [h.depth_eq, hothers.depth_eq, hbase]

end Levels

namespace MerkleTree

variable {tree other : MerkleTree}

theorem root_build_nil (leaf : Bytes32) : (build leaf []).root = leaf := rfl

/-- The nodes so many levels under the root, or the leaves where there are not so many. -/
def nodesUnder (tree : MerkleTree) (height : Nat) : List Bytes32 :=
  (tree.levels.upper (tree.depth - height)).base

theorem nodesUnder_depth (tree : MerkleTree) : tree.nodesUnder tree.depth = tree.leaves := by
  rw [nodesUnder, Nat.sub_self, Levels.upper_zero, base_levels]

/-- What a root binds: the spread of the nodes as far under it as both trees reach. -/
theorem root_eq_iff_spread_eq
    (hpairs : NoBranchCollision (tree.levels.pairs ++ other.levels.pairs)) :
    tree.root = other.root ↔
      spread (min tree.depth other.depth) (tree.nodesUnder (min tree.depth other.depth)) =
        spread (min tree.depth other.depth) (other.nodesUnder (min tree.depth other.depth)) := by
  generalize hheight : min tree.depth other.depth = height
  have htree : (tree.levels.upper (tree.depth - height)).depth = height := by
    rw [Levels.depth_upper, ← depth, Nat.sub_sub_self (hheight ▸ Nat.min_le_left _ _)]
  have hother : (other.levels.upper (other.depth - height)).depth = height := by
    rw [Levels.depth_upper, ← depth, Nat.sub_sub_self (hheight ▸ Nat.min_le_right _ _)]
  have hupper : NoBranchCollision ((tree.levels.upper (tree.depth - height)).pairs ++
      (other.levels.upper (other.depth - height)).pairs) := by
    refine hpairs.subset (List.append_subset.mpr ⟨?_, ?_⟩)
    · exact List.subset_append_of_subset_left _ (Levels.pairs_upper_subset _ _)
    · exact List.subset_append_of_subset_right _ (Levels.pairs_upper_subset _ _)
  have hiff := (tree.isBuilt.upper (tree.depth - height)).root_eq_iff
    (other.isBuilt.upper (other.depth - height)) (htree.trans hother.symm) hupper
  rwa [Levels.root_upper, Levels.root_upper, htree] at hiff

/-- Of leaf lists of one length the root binds the leaves. -/
theorem leaves_eq_of_root_eq
    (hpairs : NoBranchCollision (tree.levels.pairs ++ other.levels.pairs))
    (hcount : tree.leafCount = other.leafCount) (hroot : tree.root = other.root) :
    tree.leaves = other.leaves := by
  have hdepth : tree.depth = other.depth := by
    rw [depth_eq, depth_eq, hcount]
  have hspread := (root_eq_iff_spread_eq hpairs).mp hroot
  rw [hdepth, Nat.min_self, nodesUnder_depth, ← hdepth, nodesUnder_depth] at hspread
  exact spread_injective hcount hspread

/-- Two lists of leaves of one length, at least one, have trees, and unless two of the pairs that
are hashed for these collide, the roots are the same just when the lists are. So leaves that are
replaced or put in another order always change the root. -/
theorem root_binds_leaves [Machine] {leaves others : List Bytes32} (hleaves : leaves ≠ [])
    (hlength : leaves.length = others.length) :
    ∃ tree other, ofData (leaves.map fun leaf => .bytes leaf.bytes) = .ok tree ∧
      ofData (others.map fun leaf => .bytes leaf.bytes) = .ok other ∧
      (NoBranchCollision (tree.levels.pairs ++ other.levels.pairs) →
        (tree.root = other.root ↔ leaves = others)) := by
  have hothers : others ≠ [] := by
    rw [← List.length_pos_iff, ← hlength]
    exact List.length_pos_iff.mpr hleaves
  obtain ⟨first, rest, rfl⟩ := List.exists_cons_of_ne_nil hleaves
  obtain ⟨first', rest', rfl⟩ := List.exists_cons_of_ne_nil hothers
  refine ⟨build first rest, build first' rest', ofData_bytes _, ofData_bytes _, fun hpairs => ?_⟩
  constructor
  · intro hroot
    exact leaves_eq_of_root_eq hpairs hlength hroot
  · intro hsame
    rw [List.cons.injEq] at hsame
    rw [hsame.1, hsame.2]

/-- Two leaves have another root when they are swapped. -/
theorem root_binds_leaves_swapped :
    ∃ tree other,
      ofData ([.ofNat 1, .ofNat 2].map fun leaf : Bytes32 => .bytes leaf.bytes) = .ok tree ∧
      ofData ([.ofNat 2, .ofNat 1].map fun leaf : Bytes32 => .bytes leaf.bytes) = .ok other ∧
      NoBranchCollision (tree.levels.pairs ++ other.levels.pairs) ∧ tree.root ≠ other.root := by
  have hlength : [Bytes32.ofNat 1, .ofNat 2].length = [Bytes32.ofNat 2, .ofNat 1].length := rfl
  obtain ⟨tree, other, htree, hother, hbinds⟩ :=
    root_binds_leaves (List.cons_ne_nil _ _) hlength
  refine ⟨tree, other, htree, hother, ?_⟩
  rw [ofData_bytes] at htree hother
  cases htree
  cases hother
  have hpairs : NoBranchCollision ((build (.ofNat 1) [.ofNat 2]).levels.pairs ++
      (build (.ofNat 2) [.ofNat 1]).levels.pairs) := by
    decide +kernel
  refine ⟨hpairs, fun hroot => ?_⟩
  have hsame := (hbinds hpairs).mp hroot
  revert hsame
  decide

theorem exists_getElem?_of_levelAt {level : Number} {nodes : List Bytes32}
    (h : tree.levelAt level = .ok nodes) :
    ∃ count : Nat, tree.levels.toList[count]? = some nodes := by
  unfold levelAt at h
  split_ifs at h
  split at h
  · next found hfound =>
      cases h
      obtain ⟨count, -, hcount⟩ := Option.bind_eq_some_iff.mp hfound
      unfold levelAt? at hcount
      split_ifs at hcount
      exact ⟨count.toNat, hcount⟩
  · cases h

/-- The nodes of a level are the leaves of a tree with the same root. -/
theorem exists_tree_of_levelAt {level : Number} {nodes : List Bytes32}
    (h : tree.levelAt level = .ok nodes) :
    ∃ above : MerkleTree, above.leaves = nodes ∧ above.root = tree.root := by
  obtain ⟨count, hcount⟩ := exists_getElem?_of_levelAt h
  have hbase := Levels.base_upper hcount
  have hbuilt := tree.isBuilt.upper count
  cases nodes with
  | nil => exact absurd hbase hbuilt.base_ne_nil
  | cons first rest =>
      refine ⟨build first rest, rfl, ?_⟩
      have hroot := (build first rest).isBuilt.root_eq_of_base_eq hbuilt (by
        rw [base_levels, hbase]
        rfl)
      exact hroot.trans (Levels.root_upper tree.levels count)

end MerkleTree

end QuorumTree
