import QuorumTree.Proofs.Commitment.Contents
import QuorumTree.Proofs.KeyForms
import QuorumTree.Proofs.Quorum.Rank

/-!
Which members resolve. A member stands for one participant or for none, whether it is an index or a
key in any of its forms; members resolve exactly when they stand for as many distinct participants
as are asked for, so neither their order nor their forms matter, and what they resolve to is
accepted as a quorum.
-/

namespace QuorumTree

namespace Combination

/-- A member stands for the participant at a place: an index for the one that it counts to, a value
of a kind that keys are given in for the one whose key is read from it. -/
inductive StandsFor [Machine] (participants : List PublicKey) : Datum → Nat → Prop
  | index {place : Nat} : place < participants.length → StandsFor participants (.int place) place
  | key {member : Datum} {key : PublicKey} {place : Nat} : member.IsKeyLike →
      PublicKey.ofDatum member = .ok key → participants[place]? = some key →
      StandsFor participants member place

/-- Members of one kind: all of them indices, or all of kinds that keys are given in. -/
inductive OfOneKind : List Datum → Prop
  | indices (named : List Int) : OfOneKind (named.map .int)
  | keys {members : List Datum} : (∀ member ∈ members, member.IsKeyLike) → OfOneKind members

variable {participants : List PublicKey}

/-- One of the numbers that the refusal of members tells is too long to be written. -/
def HasLong (m : Nat) (members : List Datum) : Prop :=
  10 ^ Text.maxDigits ≤ m ∨
    ∃ index : Int, Datum.int index ∈ members ∧ 10 ^ Text.maxDigits ≤ index.natAbs

/-- A refusal of members: as signers, or for a number that is too long to be told. -/
def IsRefusal (m : Nat) (members : List Datum) (fault : Fault) : Prop :=
  fault.kind = .notCommitted ∨ fault = .numberTooLong ∧ HasLong m members

theorem same_int_iff (count m : Nat) : (Datum.int count).same (.int m) = true ↔ count = m := by
  simp [Datum.same]

theorem OfOneKind.perm {members others : List Datum} (h : OfOneKind members)
    (hperm : others.Perm members) : OfOneKind others := by
  cases h with
  | indices named =>
      have hnamed : List.Forall₂ (fun member index => member = Datum.int index)
          (named.map .int) named := by
        rw [List.forall₂_map_left_iff, List.forall₂_same]
        exact fun _ _ => rfl
      obtain ⟨renamed, hrenamed, -⟩ := List.perm_comp_forall₂ hperm hnamed
      rw [← List.forall₂_map_right_iff, List.forall₂_eq_eq_eq] at hrenamed
      rw [hrenamed]
      exact .indices renamed
  | keys hmembers => exact .keys fun member hmember => hmembers member (hperm.subset hmember)

theorem IsRefusal.of_telling {m : Nat} {members : List Datum} {numbers : List Number}
    {refusal : Fault} (h : refusal.kind = .notCommitted)
    (htold : ∀ number ∈ numbers, number.isWritable = false → HasLong m members) :
    IsRefusal m members (.telling numbers refusal) := by
  obtain heq | ⟨heq, number, hnumber, hlong⟩ := Fault.telling_cases numbers refusal
  · rw [heq]
    exact .inl h
  · rw [heq]
    exact .inr ⟨rfl, htold number hnumber hlong⟩

theorem refusesOnly_indexOfNumber {m : Nat} {members : List Datum} {given : Int}
    (h : .int given ∈ members) (count : Nat) :
    RefusesOnly (IsRefusal m members) (indexOfNumber count given) := by
  unfold indexOfNumber
  split_ifs
  · exact .ok _
  · refine .error (.of_telling rfl fun number hnumber hlong => .inr ⟨given, h, ?_⟩)
    rw [List.mem_singleton.mp hnumber, Number.isWritable_whole] at hlong
    exact Nat.not_lt.mp (of_decide_eq_false hlong)

section

variable [Machine]

/-! ### Single members -/

theorem standsFor_int_iff {given : Int} {place : Nat} :
    StandsFor participants (.int given) place ↔
      indexOfNumber participants.length given = .ok place := by
  rw [indexOfNumber_eq_ok_iff]
  constructor
  · rintro (hplace | ⟨⟨⟩⟩)
    exact ⟨rfl, hplace⟩
  · rintro ⟨rfl, hplace⟩
    exact .index hplace

theorem standsFor_iff_of_isKeyLike (hnodup : participants.Nodup) {member : Datum}
    (hmember : member.IsKeyLike) {place : Nat} :
    StandsFor participants member place ↔ indexOfKey participants member = .ok place := by
  rw [indexOfKey_eq_ok_iff hnodup]
  constructor
  · rintro (_ | ⟨-, hkey, hplace⟩)
    · cases hmember
    · exact ⟨_, hkey, hplace⟩
  · rintro ⟨key, hkey, hplace⟩
    exact .key hmember hkey hplace

/-- A value that keys are given in is refused as a signer, whether it is no key or no
participant. -/
theorem refusesOnly_indexOfKey {member : Datum} (hmember : member.IsKeyLike) :
    RefusesOnly (·.kind = .notCommitted) (indexOfKey participants member) := by
  unfold indexOfKey
  split
  · next fault hread =>
      have hkind := hmember.refusesOnly_ofDatum fault hread
      have hnumbers : member.numbers = [] := by cases hmember <;> rfl
      rw [if_pos (by rw [hkind]; rfl), hnumbers]
      exact .error rfl
  · split
    · exact .ok _
    · exact .error rfl

/-! ### All members -/

theorem memberIndices_of_isKeyLike {members : List Datum}
    (hmembers : ∀ member ∈ members, member.IsKeyLike) :
    memberIndices participants members = members.mapM (indexOfKey participants) := by
  cases members with
  | nil => rfl
  | cons member members =>
      have hnone : indices? (member :: members) = none := by
        rw [indices?, List.mapM_cons]
        split
        · next index => cases hmembers _ List.mem_cons_self
        · rfl
      simp only [memberIndices, hnone]

theorem memberIndices_eq_ok_iff (hnodup : participants.Nodup) {members : List Datum}
    (hmembers : OfOneKind members) {places : List Nat} :
    memberIndices participants members = .ok places ↔
      List.Forall₂ (StandsFor participants) members places := by
  cases hmembers with
  | indices named =>
      rw [memberIndices_map_int, mapM_eq_ok_iff, List.forall₂_map_left_iff]
      simp only [standsFor_int_iff]
  | keys hmembers =>
      rw [memberIndices_of_isKeyLike hmembers, mapM_eq_ok_iff, List.forall₂_iff_zip,
        List.forall₂_iff_zip]
      refine and_congr_right fun _ => forall₂_congr fun member place => ?_
      refine imp_congr_right fun hmem => ?_
      exact (standsFor_iff_of_isKeyLike hnodup (hmembers _ (List.of_mem_zip hmem).1)).symm

theorem refusesOnly_memberIndices {members : List Datum} (hmembers : OfOneKind members) (m : Nat) :
    RefusesOnly (IsRefusal m members) (memberIndices participants members) := by
  cases hmembers with
  | indices named =>
      rw [memberIndices_map_int]
      exact .mapM fun index hindex => refusesOnly_indexOfNumber (List.mem_map_of_mem hindex) _
  | keys hmembers =>
      rw [memberIndices_of_isKeyLike hmembers]
      refine .mapM fun member hmember => ?_
      exact (refusesOnly_indexOfKey (hmembers member hmember)).mono fun _ => .inl

/-! ### Resolution -/

/-- Members of one kind resolve to the ascending places of the participants that they stand for. -/
theorem resolve_int_eq_ok_iff (hnodup : participants.Nodup) {members : List Datum}
    (hmembers : OfOneKind members) {m : Nat} {combination : Combination} :
    resolve participants (.int m) members = .ok combination ↔
      ∃ places, List.Forall₂ (StandsFor participants) members places ∧ places.Nodup ∧
        places.length = m ∧ combination.Perm places ∧ combination.Pairwise (· < ·) := by
  simp only [resolve_eq_ok_iff, memberIndices_eq_ok_iff hnodup hmembers, same_int_iff]

theorem refusesOnly_resolve {members : List Datum} (hmembers : OfOneKind members) (m : Nat) :
    RefusesOnly (IsRefusal m members) (resolve participants (.int m) members) := by
  refine (refusesOnly_memberIndices hmembers m).bind fun indices => ?_
  split_ifs
  · refine .error (.of_telling rfl fun number hnumber hlong => .inl ?_)
    rw [List.mem_singleton.mp hnumber, Number.isWritable_natCast] at hlong
    exact Nat.not_lt.mp (of_decide_eq_false hlong)
  · exact .ok _
  · exact .error (.inl rfl)

/-- What members resolve to, or are refused for once each stands for a participant, depends on the
participants only. -/
theorem resolve_eq_of_perm {members others : List Datum} {places relisted : List Nat}
    (hmembers : memberIndices participants members = .ok places)
    (hothers : memberIndices participants others = .ok relisted) (hperm : relisted.Perm places)
    (m : Datum) : resolve participants m others = resolve participants m members := by
  have hnodup := hperm.nodup_iff
  have hlength := hperm.length_eq
  rw [resolve, resolve, hmembers, hothers]
  change (if _ then _ else _) = (if _ then _ else _)
  simp only [hnodup, hlength]
  split_ifs with hdistinct hcount
  · rfl
  · obtain ⟨hsorted, hascending⟩ := (mergeSort_eq_iff hdistinct).mp rfl
    rw [Except.ok.injEq, mergeSort_eq_iff (hnodup.mpr hdistinct)]
    exact ⟨hsorted.trans hperm.symm, hascending⟩
  · rfl

/-- Another order of the members resolves to the same. -/
theorem resolve_of_perm (hnodup : participants.Nodup) {members others : List Datum}
    (hmembers : OfOneKind members) (hperm : others.Perm members) {m : Nat}
    {combination : Combination}
    (h : resolve participants (.int m) members = .ok combination) :
    resolve participants (.int m) others = .ok combination := by
  obtain ⟨places, hplaces, -⟩ := (resolve_int_eq_ok_iff hnodup hmembers).mp h
  obtain ⟨relisted, hrelisted, hreordered⟩ := List.perm_comp_forall₂ hperm hplaces
  rw [resolve_eq_of_perm ((memberIndices_eq_ok_iff hnodup hmembers).mpr hplaces)
    ((memberIndices_eq_ok_iff hnodup (hmembers.perm hperm)).mpr hrelisted) hreordered, h]

/-- What members resolve to is accepted as a quorum, and so has a rank. -/
theorem isQuorum_of_resolve_int (hnodup : participants.Nodup) {members : List Datum} {m : Nat}
    {combination : Combination}
    (h : resolve participants (.int m) members = .ok combination) :
    combination.IsQuorum participants.length m := by
  obtain ⟨indices, hindices, -, hsize, hperm, hascending⟩ := resolve_eq_ok_iff.mp h
  refine ⟨?_, hascending, fun index hindex => ?_⟩
  · rw [hperm.length_eq]
    exact (same_int_iff _ _).mp hsize
  · exact lt_of_memberIndices hnodup hindices (hperm.subset hindex)

/-- Resolution is exact, and blind to order and form. Members of one kind resolve exactly when they
stand for `m` distinct participants, and then to the ascending places of these; otherwise they are
refused as signers, or for a number that is too long to be told with that. Neither another order of
the members nor other forms of the same participants make a difference; and what they resolve to is
accepted as a quorum and has a rank. -/
theorem resolve_exact {participants : List PublicKey} (hparticipants : IsAscendingKeys participants)
    {members : List Datum} (hmembers : OfOneKind members) (m : Nat) :
    ((∃ combination, resolve participants (.int m) members = .ok combination) ↔
      ∃ places, List.Forall₂ (StandsFor participants) members places ∧ places.Nodup ∧
        places.length = m) ∧
    (∀ combination places, resolve participants (.int m) members = .ok combination →
      List.Forall₂ (StandsFor participants) members places →
        combination.Perm places ∧ combination.Pairwise (· < ·)) ∧
    (∀ fault, resolve participants (.int m) members = .error fault →
      fault.kind = .notCommitted ∨ fault = .numberTooLong ∧ HasLong m members) ∧
    (∀ others combination, others.Perm members →
      (resolve participants (.int m) others = .ok combination ↔
        resolve participants (.int m) members = .ok combination)) ∧
    (∀ others places relisted, OfOneKind others →
      List.Forall₂ (StandsFor participants) members places →
      List.Forall₂ (StandsFor participants) others relisted → relisted.Perm places →
        resolve participants (.int m) others = resolve participants (.int m) members) ∧
    ∀ combination, resolve participants (.int m) members = .ok combination →
      ofData (.list combination.toMembers) (.int participants.length) (.int m) = .ok combination ∧
        rankOfData (.list combination.toMembers) (.int participants.length) =
          .ok (rank participants.length combination) := by
  have hnodup := hparticipants.nodup
  refine ⟨⟨?_, ?_⟩, fun combination places hresolve hplaces => ?_, refusesOnly_resolve hmembers _,
    fun others combination hperm => ?_,
    fun others places relisted hothers hplaces hrelisted hperm => ?_,
    fun combination hresolve => ?_⟩
  · rintro ⟨combination, hresolve⟩
    obtain ⟨places, hplaces, hdistinct, hlength, -⟩ :=
      (resolve_int_eq_ok_iff hnodup hmembers).mp hresolve
    exact ⟨places, hplaces, hdistinct, hlength⟩
  · rintro ⟨places, hplaces, hdistinct, hlength⟩
    exact ⟨_, (resolve_int_eq_ok_iff hnodup hmembers).mpr
      ⟨places, hplaces, hdistinct, hlength, (mergeSort_eq_iff hdistinct).mp rfl⟩⟩
  · obtain ⟨found, hfound, -, -, hsorted⟩ := (resolve_int_eq_ok_iff hnodup hmembers).mp hresolve
    have hsame := ((memberIndices_eq_ok_iff hnodup hmembers).mpr hfound).symm.trans
      ((memberIndices_eq_ok_iff hnodup hmembers).mpr hplaces)
    rw [Except.ok.injEq] at hsame
    exact hsame ▸ hsorted
  · exact ⟨resolve_of_perm hnodup (hmembers.perm hperm) hperm.symm,
      resolve_of_perm hnodup hmembers hperm⟩
  · exact resolve_eq_of_perm ((memberIndices_eq_ok_iff hnodup hmembers).mpr hplaces)
      ((memberIndices_eq_ok_iff hnodup hothers).mpr hrelisted) hperm _
  · have hquorum := isQuorum_of_resolve_int hnodup hresolve
    exact ⟨ofMembers_eq_ok_iff.mpr ⟨hquorum, rfl⟩, rankOfData_toMembers hquorum⟩

end

end Combination

namespace TwoOfThree

/-- The third participant by its text and the first one by its uncompressed bytes are the same
quorum as the two by their indices. -/
theorem resolve_exact_two_of_three :
    ∃ combination,
      Combination.resolve commitment.participants (.int 2)
        [.text thirdKey.hex, .bytes (firstKey.uncompressed 0x04)] = .ok combination ∧
      combination.Perm [2, 0] ∧
      Combination.resolve commitment.participants (.int 2) [.int 0, .int 2] = .ok combination ∧
      Combination.ofData (.list combination.toMembers) (.int 3) (.int 2) = .ok combination := by
  have hascending := isAscendingKeys_of_sortParticipants sortParticipants_values
  have hkeys : Combination.OfOneKind [.text thirdKey.hex, .bytes (firstKey.uncompressed 0x04)] :=
    .keys (List.forall_mem_cons.mpr ⟨.text _, List.forall_mem_singleton.mpr (.bytes _)⟩)
  have hfirst : firstKey.IsForm (.bytes (firstKey.uncompressed 0x04)) :=
    .bytes (.uncompressed (.inl rfl))
  have hplaces : List.Forall₂ (Combination.StandsFor commitment.participants)
      [.text thirdKey.hex, .bytes (firstKey.uncompressed 0x04)] [2, 0] :=
    .cons (.key (.text _) thirdKey.ofHex_hex rfl)
      (.cons (.key (.bytes _) hfirst.ofDatum_eq_ok rfl) .nil)
  have hindices : List.Forall₂ (Combination.StandsFor commitment.participants)
      [.int 0, .int 2] [0, 2] := .cons (.index (by decide)) (.cons (.index (by decide)) .nil)
  obtain ⟨hresolves, hsorted, -, -, hforms, haccepted⟩ :=
    Combination.resolve_exact hascending hkeys 2
  obtain ⟨combination, hresolve⟩ := hresolves.mpr ⟨[2, 0], hplaces, by decide, rfl⟩
  refine ⟨combination, hresolve, (hsorted _ _ hresolve hplaces).1, ?_,
    (haccepted _ hresolve).1⟩
  rw [← hresolve]
  exact hforms _ _ _ (.indices [0, 2]) hplaces hindices (List.Perm.swap 2 0 [])

/-- The index of no participant is not refused as a signer when it is too long to be told. -/
theorem resolve_long_index :
    ∃ fault, Combination.resolve commitment.participants (.int 2)
        [.int (10 ^ Text.maxDigits : Nat), .int 0] = .error fault ∧ fault.kind ≠ .notCommitted := by
  have hlong : (Number.whole (10 ^ Text.maxDigits : Nat)).isWritable = false := by
    rw [Number.isWritable_natCast]
    exact decide_eq_false (Nat.lt_irrefl _)
  have hindex : Combination.indexOfNumber 3 (10 ^ Text.maxDigits : Nat) =
      .error .numberTooLong := by
    have hmany : ¬ (0 ≤ ((10 ^ Text.maxDigits : Nat) : Int) ∧
        ((10 ^ Text.maxDigits : Nat) : Int) < (3 : Nat)) := by
      rw [Int.ofNat_lt]
      have hten : 10 ≤ 10 ^ Text.maxDigits := Nat.le_self_pow (by decide) 10
      omega
    rw [Combination.indexOfNumber, if_neg hmany,
      Fault.telling_of_unwritable (List.mem_singleton_self _) hlong]
  have hmembers : Combination.memberIndices commitment.participants
      ([((10 ^ Text.maxDigits : Nat) : Int), 0].map .int) = .error .numberTooLong := by
    rw [Combination.memberIndices_map_int, List.mapM_cons]
    change Combination.indexOfNumber 3 _ >>= _ = _
    rw [hindex]
    rfl
  refine ⟨.numberTooLong, ?_, nofun⟩
  rw [Combination.resolve]
  exact bind_eq_error_iff.mpr (.inl hmembers)

end TwoOfThree

end QuorumTree
