import QuorumTree.Proofs.Participants
import QuorumTree.Proofs.Quorum.Enumeration
import QuorumTree.Proofs.Refusal

/-!
Quorums named by their members. Whether by indices or by keys, and in whatever order and form, the
members of a quorum resolve to its ascending index list, and whatever resolves is a quorum.
-/

namespace QuorumTree

namespace StatedThreshold

/-- A threshold settles a policy when both of its numbers count what the policy says. -/
theorem settle_eq_ok_iff {stated : StatedThreshold} {t : Threshold} :
    stated.settle = .ok t ↔
      stated.m.toInt? = some (t.m : Int) ∧ stated.n.toInt? = some (t.n : Int) := by
  unfold settle
  constructor
  · intro h
    split at h
    · next m n hm hn =>
        rw [hm, hn]
        unfold Threshold.of at h
        split_ifs at h
        cases h
        simp only [Option.some.injEq]
        omega
    · cases h
  · rintro ⟨hm, hn⟩
    rw [hm, hn]
    exact Threshold.of_natCast t

/-- Any number that counts the signers states a threshold, as long as it says between one of the
participants and all of them. -/
theorem of_eq_ok_iff {m : Number} {signers : Int} (hm : m.toInt? = some signers) {n : Nat}
    {stated : StatedThreshold} :
    of m (.whole n) = .ok stated ↔ 1 ≤ signers ∧ signers ≤ n ∧ stated = ⟨m, .whole n⟩ := by
  have hwhole (n : Int) : (Number.whole n).toInt? = some n := rfl
  have hsigners : m.lt (.whole 1) = true ↔ signers < 1 := by
    simp only [Number.lt, hm, hwhole, decide_eq_true_eq]
  have hcovered : (Number.whole n).lt m = true ↔ (n : Int) < signers := by
    simp only [Number.lt, hm, hwhole, decide_eq_true_eq]
  unfold of
  simp only [Number.whole_lt_whole, decide_eq_true_eq]
  split_ifs with hnone hsmall hlarge
  · simp only [false_iff]
    omega
  · simp only [false_iff]
    rw [hsigners] at hsmall
    omega
  · simp only [false_iff]
    rw [hcovered] at hlarge
    omega
  · rw [hsigners] at hsmall
    rw [hcovered] at hlarge
    rw [Except.ok.injEq, eq_comm]
    exact ⟨fun h => ⟨by omega, by omega, h⟩, fun h => h.2.2⟩

theorem of_eq_ok {m : Number} {t : Threshold} (hm : m.toInt? = some (t.m : Int)) :
    of m (.whole t.n) = .ok ⟨m, .whole t.n⟩ := by
  have hone := t.one_le
  have hle := t.le
  exact (of_eq_ok_iff hm).mpr ⟨by omega, by omega, rfl⟩

/-- A threshold is refused for its numbers, or because one of them is too long to be told. -/
theorem refusesOnly_of {P : Fault → Prop} (hthreshold : ∀ fault, fault.kind = .threshold → P fault)
    (hlong : P .numberTooLong) (m n : Number) : RefusesOnly P (of m n) := by
  unfold of
  split_ifs
  · exact .telling (hthreshold _ rfl) hlong
  · exact .telling (hthreshold _ rfl) hlong
  · exact .telling (hthreshold _ rfl) hlong
  · exact .ok _

end StatedThreshold

namespace Combination

/-- The keys of the members of a combination. -/
def keysIn (participants : List PublicKey) (combination : Combination) : List PublicKey :=
  combination.filterMap (participants[·]?)

/-- The values name the members of a combination: all by index or all by key, each once and in any
order. -/
inductive Names [Machine] (participants : List PublicKey) (combination : Combination)
    : List Datum → Prop
  | indices {named : List Nat} : named.Perm combination →
      Names participants combination (named.map fun index : Nat => .int index)
  | keys {members : List Datum} {named : List PublicKey} :
      Denote members named → named.Perm (keysIn participants combination) →
        Names participants combination members

theorem forall₂_keysIn {participants : List PublicKey} {combination : Combination}
    (h : ∀ index ∈ combination, index < participants.length) :
    List.Forall₂ (fun index key => participants[index]? = some key) combination
      (keysIn participants combination) := by
  induction combination with
  | nil => exact .nil
  | cons index rest ih =>
      have hkey := List.getElem?_eq_getElem (h index List.mem_cons_self)
      rw [keysIn, List.filterMap_cons_some hkey]
      exact .cons hkey (ih fun index hindex => h index (List.mem_cons_of_mem _ hindex))

/-! ### Members -/

/-- A number is never read as a key: the strings of zeros that it could stand for spell none. -/
theorem ofDatum_int_ne_ok [Machine] (index : Int) (key : PublicKey) :
    PublicKey.ofDatum (.int index) ≠ .ok key := by
  -- Only three widths are those of keys, and at none of them are zeros a key.
  have hzeros (width : Nat) (hwidth : width = 32 ∨ width = 33 ∨ width = 65) :
      PublicKey.ofBytes (List.replicate width 0) ≠ .ok key := by
    intro h
    have hfault : ((PublicKey.ofBytes (List.replicate width 0)).toOption).isNone = true := by
      rcases hwidth with rfl | rfl | rfl <;> decide +kernel
    rw [h] at hfault
    cases hfault
  intro h
  simp only [PublicKey.ofDatum, PublicKey.ofByteDatum, Datum.byteLength, bind_eq_ok_iff] at h
  obtain ⟨width, hwidth, h⟩ := h
  split_ifs at h with hlength
  · simp only [Datum.toBytes, hwidth, Except.map, bind_eq_ok_iff, Except.ok.injEq] at h
    obtain ⟨zeros, rfl, h⟩ := h
    exact hzeros width hlength h

theorem indexOfKey_eq_ok_iff [Machine] {participants : List PublicKey} (hnodup : participants.Nodup)
    {member : Datum} {index : Nat} :
    indexOfKey participants member = .ok index ↔
      ∃ key, PublicKey.ofDatum member = .ok key ∧ participants[index]? = some key := by
  unfold indexOfKey
  cases hread : PublicKey.ofDatum member with
  | error fault => simp
  | ok key =>
      have hplace : participants.idxOf? key = some index ↔ participants[index]? = some key := by
        rw [List.idxOf?_eq_some_iff, List.getElem?_eq_some_iff]
        constructor
        · rintro ⟨hlt, hkey, -⟩
          exact ⟨hlt, hkey⟩
        · rintro ⟨hlt, rfl⟩
          refine ⟨hlt, rfl, fun other hother heq => ?_⟩
          exact absurd ((hnodup.getElem_inj_iff).mp heq) (Nat.ne_of_lt hother)
      simp only [Except.ok.injEq, exists_eq_left', ← hplace]
      cases participants.idxOf? key <;> simp

theorem indexOfNumber_eq_ok_iff {count index : Nat} {given : Int} :
    indexOfNumber count given = .ok index ↔ given = index ∧ index < count := by
  unfold indexOfNumber
  split_ifs with h
  · rw [Except.ok.injEq]
    omega
  · simp only [false_iff]
    omega

theorem memberIndices_of_denote [Machine] {participants keys : List PublicKey}
    {members : List Datum}
    (h : Denote members keys) :
    memberIndices participants members = members.mapM (indexOfKey participants) := by
  cases members with
  | nil => rfl
  | cons member members =>
      have hnone : indices? (member :: members) = none := by
        rw [Denote, mapM_eq_ok_iff] at h
        obtain _ | ⟨hmember, -⟩ := h
        rw [indices?, List.mapM_cons]
        split
        · next index => exact absurd hmember (ofDatum_int_ne_ok index _)
        · rfl
      simp only [memberIndices, hnone]

theorem indices?_map_int (named : List Int) : indices? (named.map .int) = some named := by
  rw [indices?, mapM_eq_some_iff, List.forall₂_map_left_iff, List.forall₂_same]
  intro index _
  rfl

theorem memberIndices_map_int [Machine] (participants : List PublicKey) (named : List Int) :
    memberIndices participants (named.map .int) =
      named.mapM (indexOfNumber participants.length) := by
  have hindices := indices?_map_int named
  cases named with
  | nil => rfl
  | cons index named =>
      rw [List.map_cons] at hindices ⊢
      simp only [memberIndices, hindices]

theorem memberIndices_of_indices [Machine] (participants : List PublicKey) (named : List Nat) :
    memberIndices participants (named.map fun index : Nat => .int index) =
      (named.map Int.ofNat).mapM (indexOfNumber participants.length) := by
  rw [← memberIndices_map_int, List.map_map]
  rfl

/-- Members that name a combination stand for its indices. -/
theorem Names.memberIndices [Machine] {participants : List PublicKey} {combination : Combination}
    {members : List Datum} (h : Names participants combination members)
    (hnodup : participants.Nodup) (hbound : ∀ index ∈ combination, index < participants.length) :
    ∃ indices, memberIndices participants members = .ok indices ∧ indices.Perm combination := by
  cases h with
  | @indices named hperm =>
      refine ⟨named, ?_, hperm⟩
      rw [memberIndices_of_indices, mapM_eq_ok_iff, List.forall₂_map_left_iff, List.forall₂_same]
      intro index hindex
      exact indexOfNumber_eq_ok_iff.mpr ⟨rfl, hbound index (hperm.subset hindex)⟩
  | @keys _ named hdenote hperm =>
      -- Along with the keys their indices are rearranged.
      obtain ⟨indices, hindices, hreordered⟩ :=
        List.perm_comp_forall₂ hperm (forall₂_keysIn hbound).flip
      refine ⟨indices, ?_, hreordered⟩
      rw [memberIndices_of_denote hdenote, mapM_eq_ok_iff]
      rw [Denote, mapM_eq_ok_iff] at hdenote
      refine forall₂_comp ?_ hdenote hindices
      intro member key index hkey hindex
      exact (indexOfKey_eq_ok_iff hnodup).mpr ⟨key, hkey, hindex⟩

theorem lt_of_memberIndices [Machine] {participants : List PublicKey} (hnodup : participants.Nodup)
    {members : List Datum} {indices : List Nat}
    (h : Combination.memberIndices participants members = .ok indices) {index : Nat}
    (hindex : index ∈ indices) : index < participants.length := by
  unfold Combination.memberIndices at h
  split at h
  · obtain ⟨given, -, hgiven⟩ := exists_of_mem_answers h hindex
    exact (indexOfNumber_eq_ok_iff.mp hgiven).2
  · obtain ⟨member, -, hmember⟩ := exists_of_mem_answers h hindex
    obtain ⟨key, -, hkey⟩ := (indexOfKey_eq_ok_iff hnodup).mp hmember
    exact (List.getElem?_eq_some_iff.mp hkey).1

/-! ### Resolution -/

theorem mergeSort_eq_iff {indices combination : List Nat} (hnodup : indices.Nodup) :
    indices.mergeSort (fun a b => decide (a ≤ b)) = combination ↔
      combination.Perm indices ∧ combination.Pairwise (· < ·) := by
  have hperm := List.mergeSort_perm indices fun a b => decide (a ≤ b)
  have hle : (indices.mergeSort fun a b => decide (a ≤ b)).Pairwise (· ≤ ·) := by
    refine (List.pairwise_mergeSort ?_ ?_ indices).imp of_decide_eq_true
    · simp only [decide_eq_true_eq]
      exact fun a b c => Nat.le_trans
    · simp only [Bool.or_eq_true, decide_eq_true_eq]
      exact Nat.le_total
  constructor
  · rintro rfl
    refine ⟨hperm, ?_⟩
    have hdistinct := hperm.nodup_iff.mpr hnodup
    exact (hle.and hdistinct).imp fun h => Nat.lt_of_le_of_ne h.1 h.2
  · rintro ⟨hcombination, hascending⟩
    exact List.Perm.eq_of_pairwise (fun a b _ _ => Nat.le_antisymm) hle
      (hascending.imp Nat.le_of_lt) (hperm.trans hcombination.symm)

/-- Distinct places among the participants, as many as asked for, are those of a quorum. -/
theorem exists_isQuorum {n m : Nat} {indices : List Nat} (hnodup : indices.Nodup)
    (hlength : indices.length = m) (hlt : ∀ index ∈ indices, index < n) :
    ∃ combination : Combination, combination.Perm indices ∧ combination.IsQuorum n m := by
  obtain ⟨hperm, hascending⟩ := (mergeSort_eq_iff hnodup).mp rfl
  exact ⟨_, hperm, hperm.length_eq.trans hlength, hascending, fun index hindex =>
    hlt index (hperm.subset hindex)⟩

/-- Members resolve to the ascending list of the indices that they stand for, which have to be
distinct and as many as asked for. -/
theorem resolve_eq_ok_iff [Machine] {participants : List PublicKey} {m : Datum}
    {members : List Datum} {combination : Combination} :
    resolve participants m members = .ok combination ↔
      ∃ indices, Combination.memberIndices participants members = .ok indices ∧ indices.Nodup ∧
        (Datum.int indices.length).same m = true ∧ combination.Perm indices ∧
          combination.Pairwise (· < ·) := by
  rw [resolve, bind_eq_ok_iff]
  refine exists_congr fun indices => and_congr_right fun _ => ?_
  split_ifs with hnodup hcount
  · simp_all
  · rw [Except.ok.injEq, mergeSort_eq_iff hnodup]
    simp_all
  · simp [hnodup]

theorem same_of_settle {stated : StatedThreshold} {t : Threshold} (h : stated.settle = .ok t)
    (count : Nat) : (Datum.int count).same (.number stated.m) = true ↔ count = t.m := by
  obtain ⟨hm, -⟩ := StatedThreshold.settle_eq_ok_iff.mp h
  have hcount : (Number.whole count).toInt? = some (count : Int) := rfl
  simp [Datum.same, Number.same, hcount, hm]

/-- Whatever resolves is a quorum. -/
theorem isQuorum_of_resolve [Machine] {participants : List PublicKey} (hnodup : participants.Nodup)
    {stated : StatedThreshold} {t : Threshold} (hstated : stated.settle = .ok t)
    (hcount : participants.length = t.n) {members : List Datum} {combination : Combination}
    (h : resolve participants (.number stated.m) members = .ok combination) :
    IsQuorum t.n t.m combination := by
  obtain ⟨indices, hindices, -, hsize, hperm, hascending⟩ := resolve_eq_ok_iff.mp h
  refine ⟨?_, hascending, fun index hindex => ?_⟩
  · rw [hperm.length_eq]
    exact (same_of_settle hstated _).mp hsize
  · rw [← hcount]
    exact lt_of_memberIndices hnodup hindices (hperm.subset hindex)

/-- Members that name a quorum resolve to it. -/
theorem resolve_of_names [Machine] {participants : List PublicKey} (hnodup : participants.Nodup)
    {stated : StatedThreshold} {t : Threshold} (hstated : stated.settle = .ok t)
    (hcount : participants.length = t.n) {members : List Datum} {combination : Combination}
    (hquorum : IsQuorum t.n t.m combination) (h : Names participants combination members) :
    resolve participants (.number stated.m) members = .ok combination := by
  obtain ⟨hlength, hascending, hbound⟩ := hquorum
  obtain ⟨indices, hindices, hperm⟩ := h.memberIndices hnodup (hcount ▸ hbound)
  have hdistinct : combination.Nodup := hascending.imp fun hlt => Nat.ne_of_lt hlt
  refine resolve_eq_ok_iff.mpr ⟨indices, hindices, hperm.nodup_iff.mpr hdistinct, ?_, hperm.symm,
    hascending⟩
  rw [same_of_settle hstated, hperm.length_eq, hlength]

end Combination

end QuorumTree
