import Mathlib.Data.List.Perm.Subperm
import Mathlib.Data.List.Sort
import Mathlib.Data.Nat.Choose.Basic
import QuorumTree.Quorum.Combination

/-!
The enumeration of quorums. It is characterised without its recursion: the strictly ascending index
lists of the right length, in lexicographic order. The rank of a quorum is its place in it; both
follow the split of the selections into those with the first item and those without it.
-/

namespace QuorumTree

variable {α : Type}

/-! ### Counting -/

/-- Multiplying out keeps to the binomial coefficients, so every division is exact. -/
theorem foldl_range_eq_choose {n : Nat} (j : Nat) :
    (List.range j).foldl (fun product i => product * (n - i) / (i + 1)) 1 = n.choose j := by
  induction j with
  | zero => simp
  | succ j ih =>
      rw [List.range_succ, List.foldl_append, ih, List.foldl_cons, List.foldl_nil,
        ← Nat.choose_succ_right_eq]
      exact Nat.mul_div_cancel _ (Nat.succ_pos j)

theorem binomial_eq_choose (n k : Nat) : binomial n k = n.choose k := by
  unfold binomial
  split_ifs with h
  · exact (Nat.choose_eq_zero_of_lt h).symm
  · rw [foldl_range_eq_choose]
    rcases Nat.le_total k (n - k) with hle | hle
    · rw [Nat.min_eq_left hle]
    · rw [Nat.min_eq_right hle, Nat.choose_symm (Nat.not_lt.mp h)]

theorem Combination.count_eq_choose (t : Threshold) : count t = t.n.choose t.m :=
  binomial_eq_choose t.n t.m

theorem length_choose (m : Nat) (xs : List α) : (choose m xs).length = xs.length.choose m := by
  induction xs generalizing m with
  | nil => cases m <;> rfl
  | cons x xs ih =>
      cases m with
      | zero => simp [choose]
      | succ m =>
          rw [choose_succ_cons, List.length_append, List.length_map, ih, ih, List.length_cons,
            Nat.choose_succ_succ]

/-- The selections that take the first element come first. -/
theorem getElem?_choose_of_lt {x : α} {xs : List α} {m place : Nat}
    (h : place < xs.length.choose m) :
    (choose (m + 1) (x :: xs))[place]? = (choose m xs)[place]?.map (x :: ·) := by
  have hfirst : place < ((choose m xs).map (x :: ·)).length := by
    rwa [List.length_map, length_choose]
  rw [choose_succ_cons, List.getElem?_append_left hfirst, List.getElem?_map]

/-- Those without it stand behind all of these. -/
theorem getElem?_choose_of_le {x : α} {xs : List α} {m place : Nat}
    (h : xs.length.choose m ≤ place) :
    (choose (m + 1) (x :: xs))[place]? = (choose (m + 1) xs)[place - xs.length.choose m]? := by
  have hfirst : ((choose m xs).map (x :: ·)).length = xs.length.choose m := by
    rw [List.length_map, length_choose]
  rw [choose_succ_cons, List.getElem?_append_right (hfirst ▸ h), hfirst]

theorem Combination.length_all (t : Threshold) : (all t).length = t.n.choose t.m := by
  rw [all, length_choose, List.length_range]

/-! ### Order -/

theorem mem_choose_iff {m : Nat} {xs selected : List α} :
    selected ∈ choose m xs ↔ selected.Sublist xs ∧ selected.length = m := by
  induction xs generalizing m selected with
  | nil =>
      rw [List.sublist_nil]
      cases m with
      | zero => simp [choose]
      | succ m =>
          simp only [choose, List.not_mem_nil, false_iff]
          rintro ⟨rfl, hlength⟩
          cases hlength
  | cons x xs ih =>
      cases m with
      | zero =>
          simp only [choose, List.mem_singleton, List.length_eq_zero_iff]
          constructor
          · rintro rfl
            exact ⟨List.nil_sublist _, rfl⟩
          · exact And.right
      | succ m =>
          simp only [choose_succ_cons, List.mem_append, List.mem_map, ih]
          constructor
          · rintro (⟨rest, ⟨hrest, rfl⟩, rfl⟩ | ⟨hrest, hlength⟩)
            · exact ⟨hrest.cons_cons x, rfl⟩
            · exact ⟨hrest.cons x, hlength⟩
          · rintro ⟨hsublist, hlength⟩
            cases hsublist with
            | cons _ hrest => exact .inr ⟨hrest, hlength⟩
            | cons_cons _ hrest => exact .inl ⟨_, ⟨hrest, Nat.succ.inj hlength⟩, rfl⟩

/-- From an ascending list, the selections come in lexicographic order. -/
theorem pairwise_choose {m : Nat} {xs : List Nat} (h : xs.Pairwise (· < ·)) :
    (choose m xs).Pairwise (· < ·) := by
  induction xs generalizing m with
  | nil => cases m <;> simp [choose]
  | cons x xs ih =>
      obtain ⟨hfirst, hrest⟩ := List.pairwise_cons.mp h
      cases m with
      | zero => simp [choose]
      | succ m =>
          rw [choose_succ_cons, List.pairwise_append]
          refine ⟨?_, ih hrest, ?_⟩
          · rw [List.pairwise_map]
            exact (ih hrest).imp fun hlt => List.cons_lt_cons_iff.mpr (.inr ⟨rfl, hlt⟩)
          -- What begins with the first item comes before what begins with a later one.
          · intro withFirst hwith without hwithout
            obtain ⟨rest, -, rfl⟩ := List.mem_map.mp hwith
            obtain ⟨hsublist, hlength⟩ := mem_choose_iff.mp hwithout
            obtain ⟨y, others, rfl⟩ := List.exists_cons_of_length_eq_add_one hlength
            exact List.cons_lt_cons_iff.mpr
              (.inl (hfirst y (hsublist.subset List.mem_cons_self)))

namespace Combination

/-- The indices of a quorum of `m` among `n` participants: `m` of them below `n`, ascending. -/
def IsQuorum (n m : Nat) (combination : Combination) : Prop :=
  combination.length = m ∧ combination.Pairwise (· < ·) ∧ ∀ index ∈ combination, index < n

instance (n m : Nat) (combination : Combination) : Decidable (IsQuorum n m combination) :=
  inferInstanceAs (Decidable (_ ∧ _ ∧ _))

/-- The quorums of `m` among `n` in lexicographic order, none left out. -/
structure IsLexEnumeration (n m : Nat) (combinations : List Combination) : Prop where
  mem_iff : ∀ combination, combination ∈ combinations ↔ IsQuorum n m combination
  ascending : combinations.Pairwise (· < ·)

namespace IsLexEnumeration

variable {n m : Nat} {combinations : List Combination}

theorem nodup (h : IsLexEnumeration n m combinations) : combinations.Nodup := by
  refine h.ascending.imp ?_
  rintro a b hlt rfl
  exact List.lt_irrefl _ hlt

end IsLexEnumeration

theorem sublist_range'_iff {next pool : Nat} {combination : Combination} :
    combination.Sublist (List.range' next pool) ↔
      combination.Pairwise (· < ·) ∧ ∀ index ∈ combination, next ≤ index ∧ index < next + pool := by
  have hascending : (List.range' next pool).Pairwise (· < ·) := List.pairwise_lt_range'
  constructor
  · intro h
    exact ⟨hascending.sublist h, fun index hindex => List.mem_range'_1.mp (h.subset hindex)⟩
  · rintro ⟨hsorted, hbound⟩
    have hnodup : combination.Nodup := hsorted.imp fun hlt => Nat.ne_of_lt hlt
    have hsubset : combination ⊆ List.range' next pool := fun index hindex =>
      List.mem_range'_1.mpr (hbound index hindex)
    exact List.sublist_of_subperm_of_pairwise (List.subperm_of_subset hnodup hsubset) hsorted
      hascending

theorem mem_all_iff {t : Threshold} {combination : Combination} :
    combination ∈ all t ↔ IsQuorum t.n t.m combination := by
  rw [all, mem_choose_iff, List.range_eq_range', sublist_range'_iff]
  simp only [IsQuorum, Nat.zero_le, true_and, Nat.zero_add]
  exact ⟨fun h => ⟨h.2, h.1⟩, fun h => ⟨h.2, h.1⟩⟩

theorem isLexEnumeration_all (t : Threshold) : IsLexEnumeration t.n t.m (all t) :=
  ⟨fun _ => mem_all_iff, pairwise_choose List.pairwise_lt_range⟩

/-! ### Rank -/

theorem rankFrom_self (n next : Nat) (rest : Combination) :
    rankFrom n next (next :: rest) = rankFrom n (next + 1) rest := by
  simp [rankFrom]

/-- An index that is skipped passes over all selections that begin with it. -/
theorem rankFrom_skip {n next index : Nat} (rest : Combination) (h : next < index) :
    rankFrom n next (index :: rest) =
      (n - next - 1).choose rest.length + rankFrom n (next + 1) (index :: rest) := by
  obtain ⟨skipped, rfl⟩ : ∃ skipped, index = next + 1 + skipped := ⟨index - next - 1, by omega⟩
  have hpast : next + 1 + skipped - next = skipped + 1 := by omega
  have hrest : next + 1 + skipped - (next + 1) = skipped := by omega
  simp only [rankFrom, hpast, hrest, List.range'_succ, List.foldr_cons, binomial_eq_choose]

/-- The rank among the selections of the `pool` indices from `next` on is the place there. -/
theorem getElem?_rankFrom {pool next : Nat} {combination : Combination}
    (h : combination.Sublist (List.range' next pool)) :
    (choose combination.length (List.range' next pool))[rankFrom (next + pool) next combination]? =
      some combination := by
  -- By induction on the pool. With the next index a combination lies in the first part of the
  -- enumeration; without it, behind all those that begin with that index.
  induction pool generalizing next combination with
  | zero =>
      rw [List.range'_zero, List.sublist_nil] at h
      subst h
      rfl
  | succ pool ih =>
      have hn : next + (pool + 1) = next + 1 + pool := by omega
      cases combination with
      | nil => rfl
      | cons index rest =>
          have hcount : (List.range' (next + 1) pool).length.choose rest.length =
              pool.choose rest.length := by rw [List.length_range']
          rw [List.range'_succ] at h
          rw [List.range'_succ, List.length_cons, hn]
          cases h with
          | cons_cons _ hrest =>
              have hplace := ih hrest
              obtain ⟨hlt, -⟩ := List.getElem?_eq_some_iff.mp hplace
              rw [length_choose] at hlt
              rw [rankFrom_self, getElem?_choose_of_lt hlt, hplace]
              rfl
          | cons _ hrest =>
              have hindex : next < index := by
                have hmem := List.mem_range'_1.mp (hrest.subset List.mem_cons_self)
                omega
              have hpool : next + 1 + pool - next - 1 = pool := by omega
              rw [rankFrom_skip rest hindex, hpool, getElem?_choose_of_le (by omega), hcount,
                Nat.add_sub_cancel_left]
              exact ih hrest

theorem getElem?_rank {t : Threshold} {combination : Combination}
    (h : IsQuorum t.n t.m combination) : (all t)[rank t.n combination]? = some combination := by
  have hsublist : combination.Sublist (List.range' 0 t.n) := by
    rw [← List.range_eq_range']
    exact (mem_choose_iff.mp (mem_all_iff.mpr h)).1
  have hplace := getElem?_rankFrom hsublist
  rwa [h.1, Nat.zero_add, ← List.range_eq_range'] at hplace

/-- A combination stands at its rank only. -/
theorem eq_rank_of_getElem? {t : Threshold} {combination : Combination} {place : Nat}
    (h : (all t)[place]? = some combination) : place = rank t.n combination := by
  obtain ⟨hlt, -⟩ := List.getElem?_eq_some_iff.mp h
  have hrank := getElem?_rank (mem_all_iff.mp (List.mem_of_getElem? h))
  exact (List.getElem?_inj hlt (isLexEnumeration_all t).nodup).mp (h.trans hrank.symm)

/-- A quorum is among the first ones exactly when its rank is below their number. -/
theorem mem_take_all_iff {t : Threshold} {combination : Combination}
    (h : IsQuorum t.n t.m combination) (limit : Nat) :
    combination ∈ (all t).take limit ↔ rank t.n combination < limit := by
  obtain ⟨hlt, hplace⟩ := List.getElem?_eq_some_iff.mp (getElem?_rank h)
  have hindex : (all t).idxOf combination = rank t.n combination := by
    conv_lhs => rw [← hplace]
    exact (isLexEnumeration_all t).nodup.idxOf_getElem _ hlt
  rw [List.mem_take_iff_idxOf_lt (mem_all_iff.mpr h), hindex]

end Combination

end QuorumTree
