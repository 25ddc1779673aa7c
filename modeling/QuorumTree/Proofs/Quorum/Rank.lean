import QuorumTree.Proofs.Quorum.Pruning
import QuorumTree.Proofs.Quorum.Resolution
import QuorumTree.Quorum.Untrusted

/-!
Ranks of index lists. What is accepted as a quorum is what the enumeration lists, written out as
whole numbers; its rank, a sum of binomial coefficients, is its place there, and every other list of
whole numbers is refused for its numbers.
-/

namespace QuorumTree

namespace Combination

/-- The indices of a combination as values. -/
def toMembers (combination : Combination) : List Datum :=
  combination.map fun index : Nat => .int index

theorem toMembers_eq_map (combination : Combination) :
    combination.toMembers = (combination.map Int.ofNat).map .int := by
  rw [List.map_map]
  rfl

@[simp] theorem length_toMembers (combination : Combination) :
    combination.toMembers.length = combination.length :=
  List.length_map _

theorem int_injective : Function.Injective fun index : Int => Datum.int index := by
  intro index other h
  cases h
  rfl

theorem memberIndex_eq_ok_iff {n : Nat} {member : Datum} {index : Int} :
    memberIndex (.int n) member = .ok index ↔ member = .int index ∧ 0 ≤ index ∧ index < n := by
  unfold memberIndex
  split
  · next given =>
      have hn : (Datum.int n).toNumber = .ok (.whole n) := rfl
      simp only [hn, bind, Except.bind, Number.whole_lt_whole, decide_eq_true_eq,
        Datum.number.injEq, Number.whole.injEq]
      split_ifs with hnegative hbelow
      · rw [false_iff]
        omega
      · rw [Except.ok.injEq]
        omega
      · rw [false_iff]
        omega
  · next hother =>
      simp only [reduceCtorEq, false_iff]
      rintro ⟨rfl, -⟩
      exact hother index rfl

theorem isAscending_iff {indices : List Int} :
    isAscending indices = true ↔ indices.Pairwise (· < ·) := by
  rw [← List.isChain_iff_pairwise]
  fun_induction isAscending indices with
  | case1 a b rest ih => simp [ih]
  | case2 indices hshort =>
      match indices, hshort with
      | [], _ => simp
      | [a], _ => simp
      | a :: b :: rest, hshort => exact absurd rfl (hshort a b rest)

theorem mapM_memberIndex_eq_ok_iff {n : Nat} {members : List Datum} {indices : List Int} :
    members.mapM (memberIndex (.int n)) = .ok indices ↔
      ∃ combination : Combination, members = combination.toMembers ∧
        indices = combination.map Int.ofNat ∧ ∀ index ∈ combination, index < n := by
  simp only [mapM_eq_ok_iff, memberIndex_eq_ok_iff]
  constructor
  · intro h
    induction h with
    | nil => exact ⟨[], rfl, rfl, fun index hindex => by cases hindex⟩
    | cons hfirst _ ih =>
        obtain ⟨rfl, hpositive, hbound⟩ := hfirst
        obtain ⟨index, rfl⟩ := Int.eq_ofNat_of_zero_le hpositive
        obtain ⟨combination, rfl, rfl, hrest⟩ := ih
        refine ⟨index :: combination, rfl, rfl, List.forall_mem_cons.mpr ⟨?_, hrest⟩⟩
        exact Int.ofNat_lt.mp hbound
  · rintro ⟨combination, rfl, rfl, hbound⟩
    rw [toMembers, List.forall₂_map_left_iff, List.forall₂_map_right_iff, List.forall₂_same]
    exact fun index hindex =>
      ⟨rfl, Int.natCast_nonneg index, Int.ofNat_lt.mpr (hbound index hindex)⟩

theorem isAscending_map_ofNat {combination : Combination} :
    isAscending (combination.map Int.ofNat) = true ↔ combination.Pairwise (· < ·) := by
  rw [isAscending_iff, List.pairwise_map]
  simp only [Int.ofNat_eq_natCast, Int.ofNat_lt]

theorem ofMembers_of_length {members : List Datum} {n : Datum} {m : Nat}
    (h : members.length = m) :
    ofMembers members n (.int m) = members.mapM (memberIndex n) >>= fun indices =>
      if isAscending indices then .ok (indices.map Int.toNat)
      else .error (.telling (indices.map .whole) (.memberOrder indices)) := by
  have hsize : (Datum.int members.length).same (.int m) = true := decide_eq_true (by rw [h])
  rw [ofMembers, hsize]
  rfl

theorem ofMembers_of_length_ne {members : List Datum} {n : Datum} {m : Nat}
    (h : members.length ≠ m) :
    ofMembers members n (.int m) = .error
      (.telling (Datum.int m).numbers (.memberCount (Datum.int m).display members.length)) := by
  have hsize : (Datum.int members.length).same (.int m) = false := by
    exact decide_eq_false fun heq => h (Int.ofNat_inj.mp heq)
  rw [ofMembers, hsize]
  rfl

/-- The index lists that are accepted are the quorums, written out as whole numbers. -/
theorem ofMembers_eq_ok_iff {members : List Datum} {n m : Nat} {combination : Combination} :
    ofMembers members (.int n) (.int m) = .ok combination ↔
      combination.IsQuorum n m ∧ members = combination.toMembers := by
  have hback (combination : Combination) :
      (combination.map Int.ofNat).map Int.toNat = combination := by
    rw [List.map_map]
    exact List.map_id combination
  constructor
  · intro h
    by_cases hlength : members.length = m
    · rw [ofMembers_of_length hlength, bind_eq_ok_iff] at h
      obtain ⟨indices, hindices, hanswer⟩ := h
      obtain ⟨found, rfl, rfl, hbound⟩ := mapM_memberIndex_eq_ok_iff.mp hindices
      split_ifs at hanswer with hascending
      rw [hback, Except.ok.injEq] at hanswer
      subst hanswer
      rw [length_toMembers] at hlength
      exact ⟨⟨hlength, isAscending_map_ofNat.mp hascending, hbound⟩, rfl⟩
    · rw [ofMembers_of_length_ne hlength] at h
      cases h
  · rintro ⟨⟨hlength, hascending, hbound⟩, rfl⟩
    rw [ofMembers_of_length (by rw [length_toMembers, hlength]),
      mapM_memberIndex_eq_ok_iff.mpr ⟨combination, rfl, rfl, hbound⟩]
    change (if _ then _ else _) = _
    rw [if_pos (isAscending_map_ofNat.mpr hascending), hback]

/-- Whole numbers are only ever refused for their values, or because they are too long to be told.
-/
theorem refusesOnly_ofMembers (indices : List Int) (n m : Nat) :
    RefusesOnly (·.kind = .value) (ofMembers (indices.map .int) (.int n) (.int m)) := by
  by_cases hlength : (indices.map Datum.int).length = m
  · rw [ofMembers_of_length hlength]
    refine .bind (.mapM fun member hmember => ?_) fun found => ?_
    · obtain ⟨index, -, rfl⟩ := List.mem_map.mp hmember
      have hn : (Datum.int n).toNumber = .ok (.whole n) := rfl
      simp only [memberIndex, hn, bind, Except.bind]
      split_ifs
      · exact .telling rfl rfl
      · exact .ok _
      · exact .telling rfl rfl
    · split_ifs
      · exact .ok _
      · exact .telling rfl rfl
  · rw [ofMembers_of_length_ne hlength]
    exact .telling rfl rfl

/-! ### The rank of a value -/

/-- The first combination of all has nothing to skip. -/
theorem rankFrom_range' (n next count : Nat) : rankFrom n next (List.range' next count) = 0 := by
  induction count generalizing next with
  | zero => rfl
  | succ count ih => rw [List.range'_succ, rankFrom_self, ih]

/-- The first combination without the first participant comes after all those with it. -/
theorem rank_range'_one (n m : Nat) :
    rank n (List.range' 1 (m + 1)) = (n - 1).choose m := by
  have hskipped : List.range' 0 (1 - 0) = [0] := rfl
  rw [rank, List.range'_succ, rankFrom, hskipped, List.foldr_cons, List.foldr_nil,
    rankFrom_range', List.length_range', Nat.sub_zero, binomial_eq_choose, Nat.add_zero]

theorem rankOfData_toMembers {n m : Nat} {combination : Combination}
    (h : combination.IsQuorum n m) :
    rankOfData (.list combination.toMembers) (.int n) = .ok (rank n combination) := by
  have hmembers : ofMembers combination.toMembers (.int n) (.int combination.toMembers.length) =
      .ok combination := by
    refine ofMembers_eq_ok_iff.mpr ⟨⟨?_, h.2⟩, rfl⟩
    rw [length_toMembers]
  have hn : (Datum.int n).toInt = .ok (n : Int) := rfl
  have hitems : (Datum.list combination.toMembers).items = .ok combination.toMembers := rfl
  simp only [rankOfData, hitems, hmembers, hn, bind, Except.bind, pure, Except.pure,
    Int.toNat_natCast]
  split_ifs with hfirst
  · rw [rank, hfirst, List.range_eq_range', rankFrom_range']
  · rfl

theorem rankOfData_of_ofMembers_eq_error {members : List Datum} {n : Datum} {fault : Fault}
    (h : ofMembers members n (.int members.length) = .error fault) :
    rankOfData (.list members) n = .error fault := by
  have hitems : (Datum.list members).items = .ok members := rfl
  simp only [rankOfData, hitems, h, bind, Except.bind]

theorem ofData_threshold (t : Threshold) :
    StatedThreshold.ofData (.int t.m) (.int t.n) = .ok t.stated := by
  have hpositive : (Number.whole t.n).lt (.whole 1) = false := by
    have hone := t.one_le
    have hle := t.le
    rw [Number.whole_lt_whole, decide_eq_false_iff_not]
    omega
  have hm : (Datum.int t.m).toNumber = .ok (.whole t.m) := rfl
  have hn : (Datum.int t.n).toNumber = .ok (.whole t.n) := rfl
  have hof : StatedThreshold.of (.whole t.m) (.whole t.n) = .ok t.stated :=
    StatedThreshold.of_eq_ok rfl
  simp only [StatedThreshold.ofData, hm, hn, hpositive, hof, bind, Except.bind,
    Bool.false_eq_true, if_false]

/-- Quorums are counted as long as the shorter side of the selection can be counted along. -/
theorem countOfData_eq_ok_iff {t : Threshold} {count : Nat} :
    countOfData (.int t.n) (.int t.m) = .ok count ↔
      count = t.n.choose t.m ∧ min t.m (t.n - t.m) < 2 ^ 63 := by
  rw [countOfData, ofData_threshold]
  change t.stated.settle >>= checkedCount = .ok count ↔ _
  rw [StatedThreshold.settle_stated]
  change checkedCount t = .ok count ↔ _
  rw [checkedCount, count_eq_choose]
  split_ifs with hwide
  · rw [false_iff]
    omega
  · rw [Except.ok.injEq]
    omega

/-- The quorums are listed where the participants are. -/
theorem firstData_null_eq_ok_iff [Machine] {t : Threshold} {list : List Combination} :
    firstData (.int t.n) (.int t.m) .null = .ok list ↔
      list = all t ∧ t.n < 2 ^ 63 ∧ Machine.holdsIndices t.n = true := by
  have hlimit : readLimit .null = .ok none := rfl
  have hthreshold : listableData (.int t.n) (.int t.m) = listable t := by
    rw [listableData, ofData_threshold]
    change t.stated.settle >>= listable = _
    rw [StatedThreshold.settle_stated]
    rfl
  have hfirst : firstData (.int t.n) (.int t.m) .null =
      listable t >>= fun listed => ((Source.quorums listed).read none).answer := by
    rw [firstData, hthreshold, hlimit]
    rfl
  rw [hfirst, bind_eq_ok_iff]
  constructor
  · rintro ⟨listed, hlistable, hread⟩
    obtain ⟨rfl, hbounds⟩ := listable_eq_ok_iff.mp hlistable
    refine ⟨?_, hbounds⟩
    rw [FiniteSource.read_eq (Source.lists_quorums listed)] at hread
    exact (Except.ok.inj hread).symm
  · rintro ⟨rfl, hbounds⟩
    refine ⟨t, listable_eq_ok_iff.mpr ⟨rfl, hbounds⟩, ?_⟩
    rw [FiniteSource.read_eq (Source.lists_quorums t)]
    rfl

/-- The rank of a quorum is its place in the enumeration. The enumeration, which can be listed where
there is room for the participants, has exactly the index lists that are accepted as quorums, in
strictly ascending lexicographic order, and as many as are counted, which they are as far as the
shorter side of the selection goes. Each has its place as its rank, and every other list of as many
whole numbers is refused for its numbers. -/
theorem rank_is_place [Machine] (t : Threshold) :
    (∀ list, firstData (.int t.n) (.int t.m) .null = .ok list ↔
      list = all t ∧ t.n < 2 ^ 63 ∧ Machine.holdsIndices t.n = true) ∧
    (all t).length = t.n.choose t.m ∧
    (∀ count, countOfData (.int t.n) (.int t.m) = .ok count ↔
      count = t.n.choose t.m ∧ min t.m (t.n - t.m) < 2 ^ 63) ∧
    (all t).Pairwise (· < ·) ∧
    (∀ members combination, ofData (.list members) (.int t.n) (.int t.m) = .ok combination ↔
      combination ∈ all t ∧ members = combination.toMembers) ∧
    (∀ combination ∈ all t, ∃ place,
      rankOfData (.list combination.toMembers) (.int t.n) = .ok place ∧
        (all t)[place]? = some combination) ∧
    ∀ indices : List Int, indices.length = t.m →
      (∀ combination ∈ all t, indices ≠ combination.map Int.ofNat) →
        ∃ fault, rankOfData (.list (indices.map .int)) (.int t.n) = .error fault ∧
          fault.kind = .value := by
  refine ⟨fun list => firstData_null_eq_ok_iff, length_all t, fun count => countOfData_eq_ok_iff,
    (isLexEnumeration_all t).ascending, fun members combination => ?_,
    fun combination hmem => ?_, fun indices hlength houtside => ?_⟩
  · rw [mem_all_iff]
    exact ofMembers_eq_ok_iff
  · have hquorum := mem_all_iff.mp hmem
    exact ⟨_, rankOfData_toMembers hquorum, getElem?_rank hquorum⟩
  · have hsize : (indices.map Datum.int).length = t.m := by rw [List.length_map, hlength]
    cases haccepted : ofMembers (indices.map .int) (.int t.n) (.int t.m) with
    | error fault =>
        refine ⟨fault, rankOfData_of_ofMembers_eq_error ?_, refusesOnly_ofMembers _ _ _ _ haccepted⟩
        rw [hsize, haccepted]
    | ok combination =>
        obtain ⟨hquorum, hmembers⟩ := ofMembers_eq_ok_iff.mp haccepted
        rw [toMembers_eq_map] at hmembers
        exact absurd (List.map_injective_iff.mpr int_injective hmembers)
          (houtside combination (mem_all_iff.mpr hquorum))

/-- Among three of five the quorum of the first, the third and the last has a place, and a list that
is not ascending has none. -/
theorem rank_is_place_three_of_five :
    (∃ place, rankOfData (.list [.int 0, .int 2, .int 4]) (.int 5) = .ok place ∧
      (all ⟨3, 5, by decide, by decide⟩)[place]? = some [0, 2, 4]) ∧
    ∃ fault, rankOfData (.list [.int 3, .int 1, .int 2]) (.int 5) = .error fault ∧
      fault.kind = .value := by
  obtain ⟨-, -, -, -, -, hplace, hrefused⟩ := rank_is_place ⟨3, 5, by decide, by decide⟩
  exact ⟨hplace [0, 2, 4] (by decide), hrefused [3, 1, 2] rfl (by decide)⟩

/-- Half of a great many participants are too many to be counted along, and a great many
participants are too many to be listed, whatever the machine. -/
theorem wide_selection_is_not_counted :
    (∃ fault, countOfData (.int (2 ^ 65 : Nat)) (.int (2 ^ 64 : Nat)) = .error fault ∧
      fault.kind = .tooWide) ∧
    ∃ fault, firstData (.int (2 ^ 63 : Nat)) (.int (1 : Nat)) .null = .error fault ∧
      fault.kind = .tooWide :=
  ⟨⟨_, rfl, rfl⟩, ⟨_, rfl, rfl⟩⟩

end Combination

end QuorumTree
