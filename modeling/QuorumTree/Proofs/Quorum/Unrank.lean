import QuorumTree.Proofs.Quorum.Rank

/-!
Quorums found from their ranks. The walk goes over the candidates for each index in turn, and takes
the combinations that begin with a candidate off the rank when it passes over it. What is left of
the rank stays below the number of combinations that are left, so the walk never runs out of
candidates, and it ends at the combination that has the rank as its place in the enumeration.
-/

namespace QuorumTree

namespace Combination

/-! ### The walk -/

theorem unrankFrom_of_lt {pool next m rank : Nat} (h : rank < pool.choose m) :
    unrankFrom (pool + 1) next (m + 1) rank = next :: unrankFrom pool (next + 1) m rank := by
  rw [unrankFrom, binomial_eq_choose, if_pos h]

theorem unrankFrom_of_le {pool next m rank : Nat} (h : pool.choose m ≤ rank) :
    unrankFrom (pool + 1) next (m + 1) rank =
      unrankFrom pool (next + 1) (m + 1) (rank - pool.choose m) := by
  rw [unrankFrom, binomial_eq_choose, if_neg (Nat.not_lt.mpr h)]

/-- Passing over a candidate keeps what is left of the rank below what is left to choose from. -/
theorem sub_lt_choose {pool m rank : Nat} (h : rank < (pool + 1).choose (m + 1))
    (hpassed : pool.choose m ≤ rank) : rank - pool.choose m < pool.choose (m + 1) := by
  rw [Nat.choose_succ_succ'] at h
  omega

/-- A rank below the number of combinations leads to the combination at this place. -/
theorem getElem?_unrankFrom {pool next m rank : Nat} (h : rank < pool.choose m) :
    (choose m (List.range' next pool))[rank]? = some (unrankFrom pool next m rank) := by
  -- By induction on the pool, for every rank below the number of combinations left. A candidate
  -- that is passed over takes its own off both; with the pool run out, there is no such rank.
  induction pool generalizing next m rank with
  | zero =>
      cases m with
      | zero =>
          obtain rfl : rank = 0 := Nat.lt_one_iff.mp h
          rfl
      | succ m => exact absurd h (Nat.not_lt_zero rank)
  | succ pool ih =>
      cases m with
      | zero =>
          rw [Nat.choose_zero_right, Nat.lt_one_iff] at h
          subst h
          rfl
      | succ m =>
          have hcount : (List.range' (next + 1) pool).length.choose m = pool.choose m := by
            rw [List.length_range']
          rw [List.range'_succ]
          by_cases htaken : rank < pool.choose m
          · rw [unrankFrom_of_lt htaken, getElem?_choose_of_lt (hcount ▸ htaken), ih htaken]
            rfl
          · have hpassed := Nat.not_lt.mp htaken
            rw [unrankFrom_of_le hpassed, getElem?_choose_of_le (hcount ▸ hpassed), hcount]
            exact ih (sub_lt_choose h hpassed)

/-- The same walk, where it would be refused once no candidate is left. -/
theorem descend_whole {pool next m rank : Nat} (h : rank < pool.choose m) :
    descend pool next m (.whole rank) = .ok (unrankFrom pool next m rank) := by
  induction pool generalizing next m rank with
  | zero =>
      cases m with
      | zero => rfl
      | succ m => exact absurd h (Nat.not_lt_zero rank)
  | succ pool ih =>
      cases m with
      | zero => rfl
      | succ m =>
          rw [descend, binomial_eq_choose, Number.whole_lt_whole]
          by_cases htaken : rank < pool.choose m
          · rw [unrankFrom_of_lt htaken, if_pos (by simpa using htaken), ih htaken]
            rfl
          · have hpassed := Nat.not_lt.mp htaken
            have hrest : (Number.whole rank).add? (.whole (-(pool.choose m : Nat))) =
                some (.whole ((rank - pool.choose m : Nat) : Int)) := by
              rw [Int.natCast_sub hpassed]
              rfl
            rw [unrankFrom_of_le hpassed, if_neg (by simpa using hpassed), hrest]
            exact ih (sub_lt_choose h hpassed)

variable {t : Threshold}

theorem getElem?_unrank {rank : Nat} (h : rank < t.n.choose t.m) :
    (all t)[rank]? = some (unrank t rank) := by
  rw [all, List.range_eq_range']
  exact getElem?_unrankFrom h

theorem rank_lt_choose {combination : Combination} (h : combination.IsQuorum t.n t.m) :
    rank t.n combination < t.n.choose t.m := by
  obtain ⟨hlt, -⟩ := List.getElem?_eq_some_iff.mp (getElem?_rank h)
  rwa [length_all] at hlt

theorem unrank_rank {combination : Combination} (h : combination.IsQuorum t.n t.m) :
    unrank t (rank t.n combination) = combination := by
  have hplace := getElem?_unrank (rank_lt_choose h)
  rw [getElem?_rank h, Option.some.injEq] at hplace
  exact hplace.symm

/-! ### The combination at a given rank -/

/-- Without a count of all combinations nothing is said of a rank. -/
theorem atRankData_of_wide (h : 2 ^ 63 ≤ min t.m (t.n - t.m)) (rank : Int) :
    atRankData (.int rank) (.int t.n) (.int t.m) = .error .selectionTooWide := by
  have hcount : countOf t.stated = .error .selectionTooWide := by
    rw [countOf, StatedThreshold.settle_stated]
    exact if_pos h
  rw [atRankData, ofData_threshold]
  change (countOf t.stated >>= fun _ => _) = _
  rw [hcount]
  rfl

/-- With it, a rank is refused when it is not among those of the combinations. -/
theorem atRankData_eq (h : min t.m (t.n - t.m) < 2 ^ 63) (rank : Int) :
    atRankData (.int rank) (.int t.n) (.int t.m) =
      if 0 ≤ rank ∧ rank < t.n.choose t.m then .ok (unrank t rank.toNat)
      else .error (.telling [.whole rank, .whole t.n, .whole t.m, .whole (t.n.choose t.m)]
        (.rankRange (.whole rank) (.whole t.n) (.whole t.m) (t.n.choose t.m))) := by
  have hchecked : checkedCount t = .ok (t.n.choose t.m) := by
    rw [checkedCount, if_neg (Nat.not_le.mpr h), count_eq_choose]
  have hcount : countOf t.stated = .ok (t.n.choose t.m) := by
    rw [countOf, StatedThreshold.settle_stated]
    exact hchecked
  rw [atRankData, ofData_threshold]
  change (countOf t.stated >>= fun _ => atRank (.whole rank) t.stated) = _
  rw [hcount]
  change atRank (.whole rank) t.stated = _
  rw [atRank, StatedThreshold.settle_stated]
  change (checkedCount t >>= fun _ => _) = _
  rw [hchecked]
  change (if _ then _ else _) = _
  simp only [Number.whole_le_whole, Number.whole_lt_whole, Bool.and_eq_true, decide_eq_true_eq]
  rfl

/-- Ranks and combinations determine each other, as long as the shorter side of the selection can be
counted along. A rank is then refused for its value exactly when it is not among those of the
combinations; every other one leads, on a walk that never counts a pool that has run out, to the
combination at this place of the enumeration, whose rank it is; and every combination is found from
its rank. A wider selection is refused at every rank. -/
theorem unrank_inverts_rank [Machine] (t : Threshold) :
    (∀ list, firstData (.int t.n) (.int t.m) .null = .ok list ↔
      list = all t ∧ t.n < 2 ^ 63 ∧ Machine.holdsIndices t.n = true) ∧
    (min t.m (t.n - t.m) < 2 ^ 63 →
      (∀ rank : Int,
        (∃ fault, atRankData (.int rank) (.int t.n) (.int t.m) = .error fault ∧
          fault.kind = .value) ↔ ¬ (0 ≤ rank ∧ rank < t.n.choose t.m)) ∧
      (∀ rank : Nat, rank < t.n.choose t.m → ∃ combination,
        atRankData (.int rank) (.int t.n) (.int t.m) = .ok combination ∧
          descend t.n 0 t.m (.whole rank) = .ok combination ∧
          (all t)[rank]? = some combination ∧
          rankOfData (.list combination.toMembers) (.int t.n) = .ok rank) ∧
      ∀ combination ∈ all t, ∃ rank : Nat,
        rankOfData (.list combination.toMembers) (.int t.n) = .ok rank ∧
          atRankData (.int rank) (.int t.n) (.int t.m) = .ok combination) ∧
    (2 ^ 63 ≤ min t.m (t.n - t.m) → ∀ rank : Int,
      atRankData (.int rank) (.int t.n) (.int t.m) = .error .selectionTooWide) := by
  refine ⟨fun list => firstData_null_eq_ok_iff, fun hnarrow => ⟨fun rank => ?_,
    fun rank hrank => ?_, fun combination hmem => ?_⟩, atRankData_of_wide⟩
  · rw [atRankData_eq hnarrow]
    split_ifs with hinside
    · simp [hinside]
    · exact iff_of_true ⟨_, rfl, Fault.kind_telling rfl⟩ hinside
  · have hplace := getElem?_unrank hrank
    refine ⟨unrank t rank, ?_, descend_whole hrank, hplace, ?_⟩
    · rw [atRankData_eq hnarrow, if_pos (by omega), Int.toNat_natCast]
    · rw [rankOfData_toMembers (mem_all_iff.mp (List.mem_of_getElem? hplace)),
        ← eq_rank_of_getElem? hplace]
  · have hquorum := mem_all_iff.mp hmem
    have hrank := rank_lt_choose hquorum
    refine ⟨rank t.n combination, rankOfData_toMembers hquorum, ?_⟩
    rw [atRankData_eq hnarrow, if_pos (by omega), Int.toNat_natCast, unrank_rank hquorum]

/-- Among three of five a combination has the rank 4 and is found from it, the rank of `[1, 3, 4]`
leads back to it, and there is no rank 10; among half of `2 ^ 65` nothing is found. -/
theorem unrank_inverts_rank_three_of_five :
    firstData (.int 5) (.int 3) .null = .ok (all ⟨3, 5, by decide, by decide⟩) ∧
    (∃ combination, atRankData (.int 4) (.int 5) (.int 3) = .ok combination ∧
      descend 5 0 3 (.whole 4) = .ok combination ∧
      rankOfData (.list combination.toMembers) (.int 5) = .ok 4) ∧
    (∃ rank : Nat, rankOfData (.list (toMembers [1, 3, 4])) (.int 5) = .ok rank ∧
      atRankData (.int rank) (.int 5) (.int 3) = .ok [1, 3, 4]) ∧
    (∃ fault, atRankData (.int 10) (.int 5) (.int 3) = .error fault ∧ fault.kind = .value) ∧
    atRankData (.int 0) (.int (2 ^ 65 : Nat)) (.int (2 ^ 64 : Nat)) = .error .selectionTooWide := by
  obtain ⟨hlisted, hnarrow, -⟩ := unrank_inverts_rank ⟨3, 5, by decide, by decide⟩
  obtain ⟨-, -, hwide⟩ := unrank_inverts_rank ⟨2 ^ 64, 2 ^ 65, by decide, by decide⟩
  obtain ⟨hrefused, hfound, hback⟩ := hnarrow (by decide)
  obtain ⟨combination, hat, hwalk, -, hrank⟩ := hfound 4 (by decide)
  exact ⟨(hlisted _).mpr ⟨rfl, by decide, by decide⟩, ⟨combination, hat, hwalk, hrank⟩,
    hback [1, 3, 4] (by decide), (hrefused 10).mpr (by decide), hwide (by decide) 0⟩

/-- Where a selection is too wide to be counted, a rank below all others is not refused for its
value. -/
theorem negative_rank_of_wide_selection :
    ∃ fault, atRankData (.int (-1)) (.int (2 ^ 65)) (.int (2 ^ 64)) = .error fault ∧
      fault.kind ≠ .value :=
  ⟨.selectionTooWide, by decide, by decide⟩

end Combination

end QuorumTree
