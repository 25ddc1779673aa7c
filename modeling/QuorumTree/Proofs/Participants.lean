import QuorumTree.Participants
import QuorumTree.Proofs.PublicKey
import QuorumTree.Proofs.Traversal

/-!
Participants in order. Sorting depends only on the keys that the values denote, not on how each is
written nor on their order; the outcome is strictly ascending, so a participant is known from its
index and an index from its participant.
-/

namespace QuorumTree

/-- Keys in strictly ascending order of their compressed forms. -/
def IsAscendingKeys (keys : List PublicKey) : Prop :=
  keys.Pairwise fun a b => a.bytes < b.bytes

/-- The values denote these keys, one each. -/
def Denote [Machine] (values : List Datum) (keys : List PublicKey) : Prop :=
  values.mapM PublicKey.ofDatum = .ok keys

theorem denote_map_key [Machine] (keys : List PublicKey) : Denote (keys.map .key) keys := by
  rw [Denote, mapM_eq_ok_iff, List.forall₂_map_left_iff, List.forall₂_same]
  intro key _
  rfl

theorem denote_iff [Machine] {values : List Datum} {keys : List PublicKey} :
    Denote values keys ↔ values.map PublicKey.ofDatum = keys.map .ok := by
  rw [Denote, mapM_eq_ok_iff, ← List.forall₂_eq_eq_eq, List.forall₂_map_left_iff,
    List.forall₂_map_right_iff]

/-- The order of a list does not show once it is sorted. -/
theorem mergeSort_eq_of_perm {keys relisted : List PublicKey} (h : keys.Perm relisted) :
    keys.mergeSort PublicKey.le = relisted.mergeSort PublicKey.le :=
  List.Perm.eq_of_pairwise (fun _ _ _ _ => PublicKey.le_antisymm)
    (List.pairwise_mergeSort PublicKey.le_trans PublicKey.le_total keys)
    (List.pairwise_mergeSort PublicKey.le_trans PublicKey.le_total relisted)
    ((List.mergeSort_perm keys _).trans (h.trans (List.mergeSort_perm relisted _).symm))

namespace IsAscendingKeys

theorem pairwise_le {keys : List PublicKey} (h : IsAscendingKeys keys) :
    keys.Pairwise fun a b => a.le b = true := by
  refine h.imp ?_
  intro a b hlt
  exact decide_eq_true (List.le_of_lt hlt)

theorem nodup {keys : List PublicKey} (h : IsAscendingKeys keys) : keys.Nodup := by
  refine List.Pairwise.imp ?_ h
  rintro a b hlt rfl
  exact List.lt_irrefl _ hlt

theorem mergeSort_eq {keys sorted : List PublicKey} (h : IsAscendingKeys sorted)
    (hperm : sorted.Perm keys) : keys.mergeSort PublicKey.le = sorted :=
  (mergeSort_eq_of_perm hperm.symm).trans (List.mergeSort_of_pairwise h.pairwise_le)

/-- In a list sorted by `≤` whose neighbours differ, every key is less than all that come after. -/
theorem of_firstRepeated_eq_none {keys : List PublicKey}
    (hsorted : keys.Pairwise fun a b => a.le b = true) (h : firstRepeated keys = none) :
    IsAscendingKeys keys := by
  induction keys with
  | nil => exact .nil
  | cons a keys ih =>
      cases keys with
      | nil => exact List.pairwise_singleton _ _
      | cons b keys =>
          obtain ⟨hfirst, hrest⟩ := List.pairwise_cons.mp hsorted
          rw [firstRepeated] at h
          split_ifs at h with hab
          have hascending := ih hrest h
          -- Being less than the next key is enough, since that one is less than all the others.
          have hlt : a.bytes < b.bytes :=
            PublicKey.bytes_lt_of_le (hfirst b List.mem_cons_self) hab
          refine .cons ?_ hascending
          intro c hc
          rcases List.mem_cons.mp hc with rfl | hc
          · exact hlt
          · exact List.lt_trans hlt ((List.pairwise_cons.mp hascending).1 c hc)

theorem firstRepeated_eq_none {keys : List PublicKey} (h : IsAscendingKeys keys) :
    firstRepeated keys = none := by
  induction keys with
  | nil => rfl
  | cons a keys ih =>
      cases keys with
      | nil => rfl
      | cons b keys =>
          obtain ⟨hfirst, hrest⟩ := List.pairwise_cons.mp h
          have hne : a ≠ b := by
            rintro rfl
            exact List.lt_irrefl _ (hfirst a List.mem_cons_self)
          rw [firstRepeated, if_neg hne]
          exact ih hrest

end IsAscendingKeys

theorem isAscendingKeys_mergeSort {keys : List PublicKey} (h : keys.Nodup) :
    IsAscendingKeys (keys.mergeSort PublicKey.le) := by
  have hsorted := List.pairwise_mergeSort PublicKey.le_trans PublicKey.le_total keys
  have hnodup := (List.mergeSort_perm keys PublicKey.le).nodup_iff.mpr h
  exact (hsorted.and hnodup).imp fun hab => PublicKey.bytes_lt_of_le hab.1 hab.2

theorem firstRepeated_mergeSort_eq_none_iff {keys : List PublicKey} :
    firstRepeated (keys.mergeSort PublicKey.le) = none ↔ keys.Nodup := by
  have hsorted := List.pairwise_mergeSort PublicKey.le_trans PublicKey.le_total keys
  constructor
  · intro h
    exact (List.mergeSort_perm keys PublicKey.le).nodup_iff.mp
      (IsAscendingKeys.of_firstRepeated_eq_none hsorted h).nodup
  · intro h
    exact (isAscendingKeys_mergeSort h).firstRepeated_eq_none

variable [Machine]

theorem sortParticipants_of_denote {values : List Datum} {keys : List PublicKey}
    (h : Denote values keys) :
    sortParticipants values =
      if (keys.mergeSort PublicKey.le).isEmpty then .error .noParticipants
      else match firstRepeated (keys.mergeSort PublicKey.le) with
        | some key => .error (.repeatedParticipant key.bytes)
        | none => .ok (keys.mergeSort PublicKey.le) := by
  rw [Denote] at h
  rw [sortParticipants, h]
  rfl

/-- The same keys come to the same participants, or to the same reason why there are none. -/
theorem sortParticipants_congr {values others : List Datum} {keys relisted : List PublicKey}
    (hvalues : Denote values keys) (hothers : Denote others relisted) (h : keys.Perm relisted) :
    sortParticipants values = sortParticipants others := by
  rw [sortParticipants_of_denote hvalues, sortParticipants_of_denote hothers,
    mergeSort_eq_of_perm h]

/-- Participants are the keys that the values denote, of which there is at least one, in strictly
ascending order. -/
theorem sortParticipants_eq_ok_iff {values : List Datum} {participants : List PublicKey} :
    sortParticipants values = .ok participants ↔
      ∃ keys, Denote values keys ∧ keys ≠ [] ∧ participants.Perm keys ∧
        IsAscendingKeys participants := by
  rw [sortParticipants, bind_eq_ok_iff]
  refine exists_congr fun keys => and_congr_right fun _ => ?_
  have hperm := List.mergeSort_perm keys PublicKey.le
  constructor
  · intro h
    dsimp only at h
    split_ifs at h with hempty
    split at h
    · cases h
    · next hfirst =>
        rw [Except.ok.injEq] at h
        subst h
        refine ⟨?_, hperm, ?_⟩
        · rintro rfl
          exact hempty (List.isEmpty_iff.mpr (List.perm_nil.mp hperm))
        · exact .of_firstRepeated_eq_none
            (List.pairwise_mergeSort PublicKey.le_trans PublicKey.le_total keys) hfirst
  · rintro ⟨hne, hparticipants, hascending⟩
    have hnonempty : ¬ participants.isEmpty = true := by
      rw [List.isEmpty_iff]
      rintro rfl
      exact hne (List.nil_perm.mp hparticipants)
    dsimp only
    rw [hascending.mergeSort_eq hparticipants, if_neg hnonempty, hascending.firstRepeated_eq_none]

/-- The same keys, in whatever order and however they are written, make the same participants. -/
theorem sortParticipants_eq_of_perm {values others : List Datum}
    {participants keys : List PublicKey} (h : sortParticipants values = .ok participants)
    (hothers : Denote others keys) (hperm : keys.Perm participants) :
    sortParticipants others = .ok participants := by
  obtain ⟨given, hgiven, -, hparticipants, -⟩ := sortParticipants_eq_ok_iff.mp h
  rw [← h]
  exact sortParticipants_congr hothers hgiven (hperm.trans hparticipants)

theorem length_of_sortParticipants {values : List Datum} {participants : List PublicKey}
    (h : sortParticipants values = .ok participants) : participants.length = values.length := by
  obtain ⟨keys, hkeys, -, hperm, -⟩ := sortParticipants_eq_ok_iff.mp h
  exact hperm.length_eq.trans (mapM_eq_ok_iff.mp hkeys).length_eq.symm

theorem isAscendingKeys_of_sortParticipants {values : List Datum} {participants : List PublicKey}
    (h : sortParticipants values = .ok participants) : IsAscendingKeys participants := by
  obtain ⟨-, -, -, -, hascending⟩ := sortParticipants_eq_ok_iff.mp h
  exact hascending

end QuorumTree
