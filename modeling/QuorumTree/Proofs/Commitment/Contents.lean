import Mathlib.Data.Nat.Choose.Central
import QuorumTree.Proofs.Commitment.Outcome
import QuorumTree.Proofs.Curve.GroupOrder
import QuorumTree.Proofs.Quorum.Rank
import QuorumTree.Proofs.Tree

/-!
What a commitment holds. Its quorums are enumerated, pruned and aggregated in one order, and the
place of a quorum's leaf is computed from its indices alone; both agree because the rank of a quorum
is its place in the enumeration, of which the committed quorums are a first part.
-/

namespace QuorumTree

variable {primitive : Primitive}

/-- How many signers a threshold asks for that is stated as a number or for some participants. -/
def Datum.signers? : Datum → Option Int
  | .threshold stated => stated.m.toInt?
  | value => value.toInt?

theorem of_toStated {value : Datum} {count : Nat} {stated : StatedThreshold}
    (h : value.toStated count = .ok stated) :
    value.signers? = stated.m.toInt? ∧ stated.n.same (.whole count) = true := by
  cases value with
  | threshold given =>
      rw [Datum.toStated] at h
      split_ifs at h with hsame
      cases h
      exact ⟨rfl, hsame⟩
  | number given =>
      obtain ⟨m, hnumber, hof⟩ := bind_eq_ok_iff.mp h
      cases hnumber
      unfold StatedThreshold.of at hof
      split_ifs at hof
      cases hof
      exact ⟨rfl, decide_eq_true rfl⟩
  | _ => cases h

/-- The threshold that a policy settles is for as many participants as there are. -/
theorem n_eq_of_toStated {value : Datum} {count : Nat} {stated : StatedThreshold} {t : Threshold}
    (hstated : value.toStated count = .ok stated) (hsettled : stated.settle = .ok t) :
    t.n = count := by
  obtain ⟨-, hsame⟩ := of_toStated hstated
  obtain ⟨-, hn⟩ := StatedThreshold.settle_eq_ok_iff.mp hsettled
  have hwhole : (Number.whole count).toInt? = some (count : Int) := rfl
  rw [Number.same, hn, hwhole, decide_eq_true_eq] at hsame
  exact Int.ofNat_inj.mp hsame

theorem signers?_eq_of_toStated {value : Datum} {count : Nat} {stated : StatedThreshold}
    {t : Threshold} (hstated : value.toStated count = .ok stated)
    (hsettled : stated.settle = .ok t) :
    value.signers? = some (t.m : Int) :=
  (of_toStated hstated).1.trans (StatedThreshold.settle_eq_ok_iff.mp hsettled).1

theorem quorums_of_mapM {participants : List PublicKey} {combinations : List Combination}
    {quorums : List (AggregatedKey Nat)}
    (hbound : ∀ combination ∈ combinations, ∀ index ∈ combination, index < participants.length)
    (h : combinations.mapM (quorumFor primitive participants) = .ok quorums) :
    quorums.map (·.combination) = combinations ∧
      ∀ quorum ∈ quorums, primitive (Combination.keysIn participants quorum.combination) =
        .ok ⟨quorum.key, quorum.coefficients⟩ := by
  rw [mapM_eq_ok_iff] at h
  induction h with
  | nil => exact ⟨rfl, fun quorum hquorum => by cases hquorum⟩
  | @cons combination quorum combinations quorums hfirst _ ih =>
      obtain ⟨hcombination, hmade⟩ :=
        (quorumFor_eq_ok_iff (hbound combination List.mem_cons_self)).mp hfirst
      obtain ⟨hcombinations, hrest⟩ :=
        ih fun other hother => hbound other (List.mem_cons_of_mem _ hother)
      refine ⟨by rw [List.map_cons, hcombination, hcombinations], fun other hother => ?_⟩
      rcases List.mem_cons.mp hother with rfl | hother
      · rw [hcombination]
        exact hmade
      · exact hrest other hother

section

variable [Machine]

/-- All that a commitment tells of the quorum that members name is about this combination, and its
leaf is the one at `place`. -/
structure Commitment.Locates (commitment : Commitment) (members : Datum)
    (combination : Combination) (place : Nat) : Prop where
  index : commitment.leafIndex members = .ok place
  listed : commitment.combinations[place]? = some combination
  quorum : ∃ quorum, commitment.quorums[place]? = some quorum ∧
    quorum.combination = combination ∧ commitment.quorumOf members = .ok quorum ∧
    commitment.leafOf members = .ok quorum.leafHash ∧
    commitment.membership[place]? =
      some (quorum.key, Combination.keysIn commitment.participants combination)

/-- What a commitment to a policy holds: the sorted participants, the first quorums of the policy in
the order of their ranks with their aggregates, and a tree over the leaves of these. -/
structure Commitment.IsOf (primitive : Primitive) (request : PolicyRequest)
    (commitment : Commitment) : Prop where
  participants : ∃ values, request.pubkeys.items = .ok values ∧
    sortParticipants values = .ok commitment.participants
  stated : request.threshold.toStated commitment.participants.length = .ok commitment.stated
  settled : commitment.stated.settle = .ok commitment.threshold
  budget : request.budget.toOptionalNumber = .ok commitment.budget
  covered : ∀ budget, commitment.budget = some budget → budget.toInt? = none →
    (Number.whole commitment.total).le budget = true
  total : commitment.total = Combination.count commitment.threshold
  combinations : commitment.combinations =
    (Combination.all commitment.threshold).take (retainedCount commitment.total commitment.budget)
  quorums : ∀ quorum ∈ commitment.quorums,
    primitive (Combination.keysIn commitment.participants quorum.combination) =
      .ok ⟨quorum.key, quorum.coefficients⟩
  leaves : commitment.tree.leaves = commitment.quorums.map AggregatedKey.leafHash

/-- The numbers that are told of a combination when there is no leaf for it. -/
def Commitment.toldOf (commitment : Commitment) (combination : Combination) : List Nat :=
  combination.rank commitment.threshold.n :: commitment.tree.leafCount :: combination

theorem isOf_of_committed {controller : Controller} {request : PolicyRequest}
    {commitment : Commitment} {dropped : Number}
    (h : controller.committed request = .ok (commitment, dropped)) :
    commitment.IsOf controller.primitive request ∧ dropped = .whole commitment.dropped := by
  simp only [Controller.committed, bind_eq_ok_iff] at h
  obtain ⟨values, hvalues, participants, hparticipants, stated, hstated, threshold, hsettled,
    ceiling, -, total, htotal, listed, hlisted, pruned, hpruned, -, -, quorums, hquorums, tree,
    htree, internalKey, -, hcommitment⟩ := h
  obtain rfl := Combination.eq_of_withinCeiling htotal
  obtain ⟨rfl, -, -⟩ := Combination.listable_eq_ok_iff.mp hlisted
  obtain ⟨hbudget, hretained, hdropped, -, hcovered⟩ := pruneData_quorums hpruned
  have hbound : ∀ combination ∈ pruned.retained, ∀ index ∈ combination,
      index < participants.length := by
    intro combination hcombination index hindex
    rw [← n_eq_of_toStated hstated hsettled]
    exact lt_of_mem_retained hpruned hcombination hindex
  obtain ⟨hcombinations, hmade⟩ := quorums_of_mapM hbound hquorums
  cases hcommitment
  refine ⟨⟨⟨values, hvalues, hparticipants⟩, hstated, hsettled, hbudget, hcovered, rfl,
    hcombinations.trans hretained, hmade, MerkleTree.leaves_of_ofLeaves htree⟩, ?_⟩
  rw [hdropped, Commitment.dropped, ← hcombinations, List.length_map]

theorem isOf_of_run {controller : Controller} {request : PolicyRequest} {ledger after : Ledger}
    {commitment : Commitment} {dropped : Number}
    (hledger : ledger.IsFaithful controller.primitive)
    (hrun : (controller.commitPruned request).run ledger = (.ok (commitment, dropped), after)) :
    commitment.IsOf controller.primitive request ∧ dropped = .whole commitment.dropped :=
  isOf_of_committed ((answers_commitPruned controller request).eq_of_run hledger hrun).1

/-- A policy within the ceiling, with a budget that lets some of its quorums through, is committed
to unless the primitive refuses some keys. -/
theorem Controller.exists_committed {controller : Controller} {request : PolicyRequest}
    {values : List Datum} {participants : List PublicKey} {stated : StatedThreshold}
    {threshold : Threshold} {ceiling : Number} {pruned : Pruned Combination}
    (hvalues : request.pubkeys.items = .ok values)
    (hsorted : sortParticipants values = .ok participants)
    (hstated : request.threshold.toStated participants.length = .ok stated)
    (hsettled : stated.settle = .ok threshold)
    (hceiling : (request.ceiling.orElse controller.ceiling).toNumber = .ok ceiling)
    (hwithin : ceiling.lt (.whole (Combination.count threshold)) = false)
    (hlisted : Combination.listable threshold = .ok threshold)
    (hpruned : pruneData (Source.quorums threshold) (.int (Combination.count threshold))
      request.budget = .ok pruned)
    (hsome : pruned.retained ≠ []) (hworkers : checkWorkers controller.workers = .ok ())
    (hprimitive : ∀ keys, ∃ made, controller.primitive keys = .ok made) :
    ∃ commitment dropped, controller.committed request = .ok (commitment, dropped) ∧
      commitment.participants = participants ∧ commitment.stated = stated := by
  have hcount : Combination.withinCeiling stated (Combination.count threshold) ceiling =
      .ok (Combination.count threshold) := by
    simp only [Combination.withinCeiling, hwithin, Bool.false_eq_true, if_false]
  obtain ⟨quorums, hquorums⟩ : ∃ quorums,
      pruned.retained.mapM (quorumFor controller.primitive participants) = .ok quorums := by
    refine exists_mapM_eq_ok fun combination hcombination => ?_
    have hbound : ∀ index ∈ combination, index < participants.length := by
      intro index hindex
      rw [← n_eq_of_toStated hstated hsettled]
      exact lt_of_mem_retained hpruned hcombination hindex
    obtain ⟨made, hmade⟩ := hprimitive (Combination.keysIn participants combination)
    exact ⟨⟨combination, made.key, made.coefficients⟩,
      (quorumFor_eq_ok_iff hbound).mpr ⟨rfl, hmade⟩⟩
  obtain ⟨internalKey, hinternal⟩ : ∃ internalKey,
      internalKeyFor controller.primitive participants request.internalKey = .ok internalKey := by
    obtain ⟨made, hmade⟩ := hprimitive participants
    cases request.internalKey with
    | null =>
        refine ⟨.key made.key, bind_eq_ok_iff.mpr ⟨made, ?_, rfl⟩⟩
        exact aggregateOf_eq_ok_iff.mpr hmade
    | _ => exact ⟨_, rfl⟩
  obtain ⟨tree, htree⟩ : ∃ tree,
      MerkleTree.ofLeaves (quorums.map AggregatedKey.leafHash) = .ok tree := by
    cases quorums with
    | nil =>
        have hnone := (mapM_eq_ok_iff.mp hquorums).length_eq
        exact absurd (List.eq_nil_of_length_eq_zero hnone) hsome
    | cons quorum quorums => exact ⟨_, rfl⟩
  simp only [Controller.committed, bind_eq_ok_iff]
  exact ⟨_, _, ⟨values, hvalues, participants, hsorted, stated, hstated, threshold, hsettled,
    ceiling, hceiling, _, hcount, threshold, hlisted, pruned, hpruned, (), hworkers, quorums,
    hquorums, tree, htree, internalKey, hinternal, rfl⟩, rfl, rfl⟩

namespace Commitment.IsOf

variable {request : PolicyRequest} {commitment : Commitment}

theorem ascending (h : commitment.IsOf primitive request) :
    IsAscendingKeys commitment.participants := by
  obtain ⟨values, -, hsorted⟩ := h.participants
  exact isAscendingKeys_of_sortParticipants hsorted

theorem n_eq (h : commitment.IsOf primitive request) :
    commitment.threshold.n = commitment.participants.length :=
  n_eq_of_toStated h.stated h.settled

theorem isQuorum_of_mem (h : commitment.IsOf primitive request) {combination : Combination}
    (hmem : combination ∈ commitment.combinations) :
    combination.IsQuorum commitment.threshold.n commitment.threshold.m := by
  rw [h.combinations] at hmem
  exact Combination.mem_all_iff.mp (List.mem_of_mem_take hmem)

theorem leafCount_eq (h : commitment.IsOf primitive request) :
    commitment.tree.leafCount = commitment.combinations.length := by
  rw [MerkleTree.leafCount, h.leaves, Commitment.combinations, List.length_map, List.length_map]

/-- The committed quorums are those whose rank is below the number of leaves. -/
theorem mem_combinations_iff (h : commitment.IsOf primitive request) {combination : Combination}
    (hquorum : combination.IsQuorum commitment.threshold.n commitment.threshold.m) :
    combination ∈ commitment.combinations ↔
      combination.rank commitment.threshold.n < commitment.tree.leafCount := by
  -- A rank is below the total in any case, so the lesser of the total and the budget bounds it.
  have hrank := (List.getElem?_eq_some_iff.mp (Combination.getElem?_rank hquorum)).1
  rw [h.leafCount_eq, h.combinations, Combination.mem_take_all_iff hquorum, List.length_take]
  omega

theorem exists_quorum (h : commitment.IsOf primitive request) {combination : Combination}
    (hmem : combination ∈ commitment.combinations) :
    ∃ quorum, commitment.quorums[combination.rank commitment.threshold.n]? = some quorum ∧
      quorum.combination = combination := by
  have hquorum := h.isQuorum_of_mem hmem
  have hplace : commitment.combinations[combination.rank commitment.threshold.n]? =
      some combination := by
    have hlimit := hmem
    rw [h.combinations, Combination.mem_take_all_iff hquorum] at hlimit
    rw [h.combinations, List.getElem?_take_of_lt hlimit, Combination.getElem?_rank hquorum]
  rw [Commitment.combinations, List.getElem?_map, Option.map_eq_some_iff] at hplace
  exact hplace

theorem leafIndex_eq (h : commitment.IsOf primitive request) {members : Datum}
    {values : List Datum} {combination : Combination} (hvalues : members.items = .ok values)
    (hresolve : Combination.resolve commitment.participants (.number commitment.stated.m) values =
      .ok combination) :
    commitment.leafIndex members =
      if combination ∈ commitment.combinations then
        .ok (combination.rank commitment.threshold.n)
      else .error
        (commitment.notCommitted combination (combination.rank commitment.threshold.n)) := by
  have hquorum := Combination.isQuorum_of_resolve h.ascending.nodup h.settled h.n_eq.symm hresolve
  simp only [leafIndex, hvalues, hresolve, bind, Except.bind, h.mem_combinations_iff hquorum]
  split_ifs with hbeyond hbelow hbelow
  · omega
  · rfl
  · rfl
  · omega

/-- Members of a combination that is not committed to are refused for that. Where one of the numbers
told with it is too long to be written, they are refused for that number instead. -/
theorem leafIndex_of_notMem (h : commitment.IsOf primitive request) {members : Datum}
    {values : List Datum} {combination : Combination} (hvalues : members.items = .ok values)
    (hresolve : Combination.resolve commitment.participants (.number commitment.stated.m) values =
      .ok combination) (hout : combination ∉ commitment.combinations) :
    ((∀ told ∈ commitment.toldOf combination, told < 10 ^ Text.maxDigits) →
      commitment.leafIndex members = .error (.notCommitted combination
        (combination.rank commitment.threshold.n) commitment.tree.leafCount)) ∧
    ((∃ told ∈ commitment.toldOf combination, 10 ^ Text.maxDigits ≤ told) →
      commitment.leafIndex members = .error .numberTooLong) := by
  rw [h.leafIndex_eq hvalues hresolve, if_neg hout]
  refine ⟨fun hshort => congrArg Except.error (Fault.telling_of_writable ?_), ?_⟩
  · intro number hnumber
    obtain ⟨told, htold, rfl⟩ := List.mem_map.mp hnumber
    rw [Number.isWritable_natCast]
    exact decide_eq_true (hshort told htold)
  · rintro ⟨told, htold, hlong⟩
    refine congrArg Except.error (Fault.telling_of_unwritable (List.mem_map_of_mem htold) ?_)
    rw [Number.isWritable_natCast]
    exact decide_eq_false (Nat.not_lt.mpr hlong)

theorem getElem?_leaves (h : commitment.IsOf primitive request) {place : Nat}
    {quorum : AggregatedKey Nat} (hquorum : commitment.quorums[place]? = some quorum) :
    commitment.tree.leaves[place]? = some quorum.leafHash := by
  rw [h.leaves, List.getElem?_map, hquorum]
  rfl

theorem locates (h : commitment.IsOf primitive request) {members : Datum} {values : List Datum}
    {combination : Combination} (hvalues : members.items = .ok values)
    (hresolve : Combination.resolve commitment.participants (.number commitment.stated.m) values =
      .ok combination) (hmem : combination ∈ commitment.combinations) :
    commitment.Locates members combination (combination.rank commitment.threshold.n) := by
  obtain ⟨quorum, hquorum, rfl⟩ := h.exists_quorum hmem
  have hindex := h.leafIndex_eq hvalues hresolve
  rw [if_pos hmem] at hindex
  refine ⟨hindex, ?_, quorum, hquorum, rfl, ?_, ?_, ?_⟩
  · rw [Commitment.combinations, List.getElem?_map, hquorum]
    rfl
  · simp only [quorumOf, hindex, bind, Except.bind, hquorum]
  · simp only [leafOf, hindex, bind, Except.bind]
    exact commitment.tree.leaf_eq_ok (h.getElem?_leaves hquorum)
  · rw [membership, List.getElem?_map, hquorum]
    rfl

end Commitment.IsOf

/-- What a policy is committed to. The participants are the given keys in ascending order; the
quorums are the first ones of the lexicographic enumeration, as many as the budget lets through,
each with what the primitive makes of its members' keys and with its leaf; the rest is counted as
dropped; and members that resolve to a quorum are located exactly when it is one of those
committed, and otherwise refused for that, or for a number that is too long to be told with it. -/
theorem Controller.commit_contents {controller : Controller} {request : PolicyRequest}
    {ledger after : Ledger} {commitment : Commitment} {dropped : Number}
    (hledger : ledger.IsFaithful controller.primitive)
    (hrun : (controller.commitPruned request).run ledger = (.ok (commitment, dropped), after)) :
    (controller.commit request).run ledger = (.ok commitment, after) ∧
    (∃ values keys, request.pubkeys.items = .ok values ∧ Denote values keys ∧
      commitment.participants.Perm keys ∧ IsAscendingKeys commitment.participants) ∧
    commitment.threshold.n = commitment.participants.length ∧
    request.threshold.signers? = some (commitment.threshold.m : Int) ∧
    commitment.total = commitment.threshold.n.choose commitment.threshold.m ∧
    (∃ budget enumeration, request.budget.toOptionalNumber = .ok budget ∧
      Combination.IsLexEnumeration commitment.threshold.n commitment.threshold.m enumeration ∧
      commitment.combinations = enumeration.take (retainedCount commitment.total budget)) ∧
    (∀ quorum ∈ commitment.quorums,
      controller.primitive (Combination.keysIn commitment.participants quorum.combination) =
        .ok ⟨quorum.key, quorum.coefficients⟩) ∧
    commitment.tree.leaves = commitment.quorums.map (fun quorum => leafHash quorum.key.xOnly) ∧
    (commitment.total : Int) = commitment.tree.leafCount + commitment.dropped ∧
    dropped = .whole commitment.dropped ∧
    ∀ members values combination, members.items = .ok values →
      Combination.resolve commitment.participants (.number commitment.stated.m) values =
        .ok combination →
      (combination ∈ commitment.combinations →
        ∃ k, commitment.Locates members combination k) ∧
      (combination ∉ commitment.combinations →
        ((∀ told ∈ commitment.toldOf combination, told < 10 ^ Text.maxDigits) →
          commitment.leafIndex members = .error (.notCommitted combination
            (combination.rank commitment.threshold.n) commitment.tree.leafCount)) ∧
        ((∃ told ∈ commitment.toldOf combination, 10 ^ Text.maxDigits ≤ told) →
          commitment.leafIndex members = .error .numberTooLong)) := by
  obtain ⟨h, hdropped⟩ := isOf_of_run hledger hrun
  obtain ⟨values, hvalues, hsorted⟩ := h.participants
  obtain ⟨keys, hkeys, -, hperm, hascending⟩ := sortParticipants_eq_ok_iff.mp hsorted
  refine ⟨?_, ⟨values, keys, hvalues, hkeys, hperm, hascending⟩, h.n_eq, ?_, ?_,
    ⟨commitment.budget, _, h.budget, Combination.isLexEnumeration_all _, h.combinations⟩,
    h.quorums, h.leaves, ?_, hdropped, fun members values combination hitems hresolve => ?_⟩
  · exact run_map hrun
  · exact signers?_eq_of_toStated h.stated h.settled
  · rw [h.total, Combination.count_eq_choose]
  · rw [h.leafCount_eq, Commitment.dropped, Commitment.combinations, List.length_map]
    omega
  · exact ⟨fun hmem => ⟨_, h.locates hitems hresolve hmem⟩,
      h.leafIndex_of_notMem hitems hresolve⟩

end

/-! ### Two of three

A policy of three participants with a budget for the first two of its three quorums. -/

namespace TwoOfThree

def firstKey : PublicKey :=
  ⟨1, 0x4218f20ae6c646b363db68605822fb14264ca8d2587fdd6fbc750d587e76a7ee, by decide +kernel⟩

def secondKey : PublicKey :=
  ⟨2, 0x66fbe727b2ba09e09f5a98d70a5efce8424c5fa425bbda1c511f860657b8535e, by decide +kernel⟩

def thirdKey : PublicKey :=
  ⟨3, 0xd0dccc6a374f85c7cb5f1a6425bc6bb4a20c877ad1a9f143f0dd788060b640e4, by decide +kernel⟩

/-- The aggregate of the first and the second key. -/
def firstSecond : AggregatedKey Nat where
  combination := [0, 1]
  key :=
    ⟨0x1e2c2fced4b6e429133e724447a3be353260fcce7c9c35f92cb20fa5381692b4,
      0xa1a3cae44fa47c6938b9e35afbec1d77b5cb7a60ed893fe4324599d76086aad3, by decide +kernel⟩
  coefficients := [0xaa33399c39ca87216c298971d70e8d7f632646079443e29063bacf53d323ac36, 1]

/-- The aggregate of the first and the third key. -/
def firstThird : AggregatedKey Nat where
  combination := [0, 2]
  key :=
    ⟨0x481f929c4f60d1052c08bed145ae48248eb9d3f56cd8eb3a9680ba46fa290421,
      0xaa55d388fc0567c21a1ab13db509b9ef85b196c35b6177466eb03505556e0ab4, by decide +kernel⟩
  coefficients := [0x6388e498a40bdb4bf0a9a93af1c7dbf2c5f24b6f57f11580ac83c8f0eeef0dd3, 1]

def controller : Controller :=
  ⟨musig, .int 10, .null⟩

def values : List Datum := [.key thirdKey, .key firstKey, .key secondKey]

def request : PolicyRequest :=
  ⟨.list values, .int 2, .int 2, .key firstKey, .null⟩

def commitment : Commitment where
  participants := [firstKey, secondKey, thirdKey]
  threshold := ⟨2, 3, by decide, by decide⟩
  stated := ⟨.whole 2, .whole 3⟩
  quorums := [firstSecond, firstThird]
  tree := .build firstSecond.leafHash [firstThird.leafHash]
  total := 3
  internalKey := .key firstKey
  budget := some (.whole 2)

theorem sortParticipants_values : sortParticipants values = .ok commitment.participants := by
  refine sortParticipants_eq_ok_iff.mpr
    ⟨[thirdKey, firstKey, secondKey], rfl, List.cons_ne_nil _ _, ?_, ?_⟩
  · exact ((List.Perm.swap _ _ _).cons _).trans (List.Perm.swap _ _ _)
  · rw [IsAscendingKeys]
    decide +kernel

theorem mapM_quorumFor :
    [[0, 1], [0, 2]].mapM (quorumFor musig commitment.participants) = .ok commitment.quorums := by
  refine mapM_eq_ok_iff.mpr (.cons ?_ (.cons ?_ .nil))
  · exact (quorumFor_eq_ok_iff (by decide)).mpr ⟨rfl, by decide +kernel⟩
  · exact (quorumFor_eq_ok_iff (by decide)).mpr ⟨rfl, by decide +kernel⟩

theorem pruneData_request : pruneData (Source.quorums commitment.threshold) (.int 3) (.int 2) =
    .ok ⟨[[0, 1], [0, 2]], .whole 3, some (.whole 2), 2⟩ :=
  (pruneData_eq_ok_iff (Source.lists_quorums _)).mpr ⟨_, some 2, rfl, rfl, rfl, rfl⟩

theorem committed_request : controller.committed request = .ok (commitment, .whole 1) := by
  simp only [Controller.committed, bind_eq_ok_iff]
  exact ⟨values, rfl, commitment.participants, sortParticipants_values, commitment.stated, rfl,
    commitment.threshold, rfl, .whole 10, rfl, 3, rfl, commitment.threshold, rfl,
    ⟨[[0, 1], [0, 2]], .whole 3, some (.whole 2), 2⟩, pruneData_request, (), rfl,
    commitment.quorums, mapM_quorumFor, commitment.tree, rfl, .key firstKey, rfl, rfl⟩

theorem exists_run : ∃ after,
    (controller.commitPruned request).run (Ledger.withCache none) =
      (.ok (commitment, .whole 1), after) := by
  obtain ⟨after, hrun, -⟩ :=
    answers_commitPruned controller request _ Ledger.isFaithful_withCache_none
  exact ⟨after, hrun.trans (by rw [committed_request])⟩

theorem resolve_indices {combination : Combination} (hquorum : combination.IsQuorum 3 2)
    {named : List Nat} (hnamed : named.Perm combination) :
    Combination.resolve commitment.participants (.number commitment.stated.m)
      (named.map fun index : Nat => .int index) = .ok combination :=
  Combination.resolve_of_names
    (isAscendingKeys_of_sortParticipants sortParticipants_values).nodup rfl rfl hquorum
    (.indices hnamed)

/-- The third participant with the first one is the second quorum; with the second one it is beyond
the budget. -/
theorem commit_contents_two_of_three :
    (∃ place, commitment.Locates (.list [.int 2, .int 0]) [0, 2] place) ∧
      commitment.leafIndex (.list [.int 2, .int 1]) = .error (.notCommitted [1, 2] 2 2) := by
  obtain ⟨after, hrun⟩ := exists_run
  obtain ⟨-, -, -, -, -, -, -, -, -, -, hmembers⟩ :=
    Controller.commit_contents Ledger.isFaithful_withCache_none hrun
  have hkept := resolve_indices (by decide) (List.Perm.swap 0 2 [])
  have hpruned := resolve_indices (by decide) (List.Perm.swap 1 2 [])
  refine ⟨(hmembers _ _ _ rfl hkept).1 (by decide), ((hmembers _ _ _ rfl hpruned).2 (by decide)).1
    fun told htold => ?_⟩
  have hfew : ∀ told ∈ commitment.toldOf [1, 2], told < 10 := by decide
  exact (hfew told htold).trans_le (Nat.le_self_pow (by decide) 10)

end TwoOfThree

/-! ### Ranks that are too long to be told

A policy with a budget for the first of its quorums. The quorum right after those with the first
participant has as many before it as there are of those. -/

namespace OneBudgeted

def ceiling : Nat :=
  10 ^ 4400

/-- Any keys are aggregated to the first of them. -/
def controller : Controller :=
  ⟨fun keys => .ok ⟨keys.headD TwoOfThree.firstKey, []⟩, .int ceiling, .null⟩

def request (keys : List PublicKey) (t : Threshold) : PolicyRequest :=
  ⟨.list (keys.map .key), .int t.m, .int 1, .null, .null⟩

/-- The members of the quorum right after those with the first participant. -/
def later (t : Threshold) : List Datum :=
  (List.range' 1 t.m).map fun index : Nat => .int index

variable {keys : List PublicKey} {t : Threshold}

theorem exists_committed [Machine] (hnodup : keys.Nodup) (hlength : keys.length = t.n)
    (hlisted : Combination.listable t = .ok t) (hwithin : t.n.choose t.m ≤ ceiling) :
    ∃ commitment dropped, controller.committed (request keys t) = .ok (commitment, dropped) ∧
      commitment.stated = t.stated := by
  have hsorted : sortParticipants (keys.map .key) = .ok (keys.mergeSort PublicKey.le) := by
    refine sortParticipants_eq_ok_iff.mpr ⟨keys, denote_map_key keys, ?_, List.mergeSort_perm _ _,
      isAscendingKeys_mergeSort hnodup⟩
    have hle := t.one_le.trans t.le
    rw [Ne, ← List.length_eq_zero_iff, hlength]
    omega
  have hcount : (keys.mergeSort PublicKey.le).length = t.n := by
    rw [List.length_mergeSort, hlength]
  obtain ⟨pruned, hpruned, hsome⟩ : ∃ pruned, pruneData (Source.quorums t)
      (.int (Combination.count t)) (request keys t).budget = .ok pruned ∧ pruned.retained ≠ [] :=
    exists_pruneData_quorums (.inr ⟨1, rfl, by decide, by decide⟩)
  have hceiling : (Number.whole ceiling).lt (.whole (Combination.count t)) = false := by
    rw [Number.whole_lt_whole, Combination.count_eq_choose, decide_eq_false_iff_not, not_lt]
    exact Int.ofNat_le.mpr hwithin
  have hprimitive : ∀ keys, ∃ made, controller.primitive keys = .ok made := fun keys => ⟨_, rfl⟩
  obtain ⟨commitment, dropped, hcommitted, -, hstated⟩ :=
    Controller.exists_committed rfl hsorted (by rw [hcount]; exact StatedThreshold.of_eq_ok rfl)
      (StatedThreshold.settle_stated t) rfl hceiling hlisted hpruned hsome rfl hprimitive
  exact ⟨commitment, dropped, hcommitted, hstated⟩

/-- Only the first quorum is committed to. -/
theorem leafIndex_later [Machine] {commitment : Commitment} {dropped : Number}
    (h : controller.committed (request keys t) = .ok (commitment, dropped))
    (hstated : commitment.stated = t.stated) (hm : t.m < t.n)
    (hlong : 10 ^ Text.maxDigits ≤ (t.n - 1).choose (t.m - 1)) :
    ∃ combination, Combination.resolve commitment.participants (.number commitment.stated.m)
        (later t) = .ok combination ∧ combination ∉ commitment.combinations ∧
      commitment.leafIndex (.list (later t)) = .error .numberTooLong := by
  have hof := (isOf_of_committed h).1
  have hone := t.one_le
  have hthreshold : commitment.threshold = t := by
    have hsettled := hof.settled
    rw [hstated, StatedThreshold.settle_stated, Except.ok.injEq] at hsettled
    exact hsettled.symm
  have hquorum : Combination.IsQuorum commitment.threshold.n commitment.threshold.m
      (List.range' 1 t.m) := by
    rw [hthreshold]
    refine ⟨List.length_range', List.pairwise_lt_range', fun index hindex => ?_⟩
    have hbounds := List.mem_range'_1.mp hindex
    omega
  have hresolve : Combination.resolve commitment.participants (.number commitment.stated.m)
      (later t) = .ok (List.range' 1 t.m) :=
    Combination.resolve_of_names hof.ascending.nodup hof.settled hof.n_eq.symm hquorum
      (.indices (List.Perm.refl _))
  have hrank : Combination.rank commitment.threshold.n (List.range' 1 t.m) =
      (t.n - 1).choose (t.m - 1) := by
    rw [hthreshold, ← Combination.rank_range'_one, Nat.sub_add_cancel hone]
  have hout : List.range' 1 t.m ∉ commitment.combinations := by
    have hbudget : some (Number.whole 1) = commitment.budget := Except.ok.inj hof.budget
    have hfew : commitment.tree.leafCount ≤ 1 := by
      rw [hof.leafCount_eq, hof.combinations, ← hbudget, List.length_take]
      exact (Nat.min_le_left _ _).trans (Nat.min_le_left _ _)
    have hpos : 0 < 10 ^ Text.maxDigits := Nat.pow_pos (by decide)
    rw [hof.mem_combinations_iff hquorum, hrank]
    omega
  refine ⟨_, hresolve, hout, (hof.leafIndex_of_notMem rfl hresolve hout).2 ⟨_, .head _, ?_⟩⟩
  rw [hrank]
  exact hlong

theorem le_centralBinom {bound n : Nat} (hn : 4 ≤ n) (h : n * bound ≤ 4 ^ n) :
    bound ≤ n.centralBinom :=
  Nat.le_of_mul_le_mul_left (h.trans (Nat.four_pow_lt_mul_centralBinom n hn).le) (by omega)

/-- Half of so many participants that their quorums have ranks of more than 4300 digits. -/
def half : Threshold :=
  ⟨7150, 14300, by decide, by decide⟩

/-- Of the quorums of half of 14300 participants the first one is committed to, and the one right
after those with the first participant is refused, but not for that. -/
theorem leafIndex_later_of_many :
    ∃ commitment dropped after combination,
      (controller.commitPruned (request (PublicKey.firstSecrets half.n) half)).run
        (Ledger.withCache none) = (.ok (commitment, dropped), after) ∧
      Combination.resolve commitment.participants (.number commitment.stated.m) (later half) =
        .ok combination ∧ combination ∉ commitment.combinations ∧
      ∃ fault, commitment.leafIndex (.list (later half)) = .error fault ∧
        fault.kind ≠ .notCommitted := by
  have horder : half.n < groupOrder := by decide
  have hwithin : half.n.choose half.m ≤ ceiling :=
    (Nat.choose_le_two_pow half.n half.m).trans (by decide +kernel)
  have hlong : 10 ^ Text.maxDigits ≤ (half.n - 1).choose (half.m - 1) :=
    (le_centralBinom (n := half.m - 1) (by decide) (by decide +kernel)).trans
      (Nat.choose_le_choose (half.m - 1) (by decide))
  obtain ⟨commitment, dropped, hcommitted, hstated⟩ := exists_committed
    (PublicKey.nodup_firstSecrets horder) (PublicKey.length_firstSecrets horder) rfl hwithin
  obtain ⟨combination, hresolve, hout, hindex⟩ :=
    leafIndex_later hcommitted hstated (by decide) hlong
  obtain ⟨after, hrun, -⟩ := answers_commitPruned controller
    (request (PublicKey.firstSecrets half.n) half) _ Ledger.isFaithful_withCache_none
  rw [hcommitted] at hrun
  exact ⟨commitment, dropped, after, combination, hrun, hresolve, hout, _, hindex, nofun⟩

end OneBudgeted

end QuorumTree
