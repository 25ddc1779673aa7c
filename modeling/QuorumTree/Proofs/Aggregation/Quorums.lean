import QuorumTree.Proofs.Aggregation.Answers
import QuorumTree.Proofs.Quorum.Resolution

/-!
The aggregates of quorums. On a faithful ledger each is what the primitive makes of the keys of the
members in ascending order, whatever was aggregated before.
-/

namespace QuorumTree

variable {primitive : Primitive}

/-- What aggregating keys comes to. -/
def aggregateOf (primitive : Primitive) (keys : List PublicKey) : Except Fault Aggregate :=
  (primitive keys).mapError Fault.ofPrimitive

/-- What aggregating a combination comes to. -/
def quorumFor (primitive : Primitive) (participants : List PublicKey) (combination : Combination) :
    Except Fault (AggregatedKey Nat) := do
  let made ← aggregateOf primitive (← combination.mapM (participantOf participants))
  return ⟨combination, made.key, made.coefficients⟩

/-- What aggregating a combination comes to, however its members' keys are found. -/
def combinationFor {ι : Type} (primitive : Primitive) (member : ι → Except Fault PublicKey)
    (combination : List ι) : Except Fault (AggregatedKey ι) := do
  let made ← aggregateOf primitive (← combination.mapM member)
  return ⟨combination, made.key, made.coefficients⟩

theorem aggregateOf_eq_ok_iff {keys : List PublicKey} {made : Aggregate} :
    aggregateOf primitive keys = .ok made ↔ primitive keys = .ok made := by
  unfold aggregateOf
  cases primitive keys <;> simp [Except.mapError]

theorem participantOf_eq_ok_iff {participants : List PublicKey} {index : Nat} {key : PublicKey} :
    participantOf participants index = .ok key ↔ participants[index]? = some key := by
  simp only [participantOf, participantAt, Int.natCast_nonneg, Int.not_lt.mpr, if_false, if_true,
    Int.toNat_natCast]
  cases participants[index]? <;> simp

theorem mapM_participantOf {participants : List PublicKey} {combination : Combination}
    (hbound : ∀ index ∈ combination, index < participants.length) :
    combination.mapM (participantOf participants) =
      .ok (Combination.keysIn participants combination) := by
  simp only [mapM_eq_ok_iff, participantOf_eq_ok_iff]
  exact Combination.forall₂_keysIn hbound

/-- The aggregate of a combination is what the primitive makes of its members' keys. -/
theorem quorumFor_eq_ok_iff {participants : List PublicKey} {combination : Combination}
    (hbound : ∀ index ∈ combination, index < participants.length) {quorum : AggregatedKey Nat} :
    quorumFor primitive participants combination = .ok quorum ↔
      quorum.combination = combination ∧
        primitive (Combination.keysIn participants combination) =
          .ok ⟨quorum.key, quorum.coefficients⟩ := by
  simp only [quorumFor, mapM_participantOf hbound, bind_eq_ok_iff, Except.ok.injEq,
    exists_eq_left', aggregateOf_eq_ok_iff]
  constructor
  · rintro ⟨made, hmade, hquorum⟩
    cases hquorum
    exact ⟨rfl, hmade⟩
  · rintro ⟨rfl, hmade⟩
    exact ⟨_, hmade, rfl⟩

theorem answers_aggregate (keys : List PublicKey) :
    Answers primitive (aggregate primitive keys) (aggregateOf primitive keys) := by
  have hcall : Answers primitive (modify (Ledger.call keys)) (.ok ()) := .modify fun _ => rfl
  change Answers primitive _ (Except.ok () >>= fun _ => aggregateOf primitive keys)
  -- Whether the keys are found is up to the ledger, but what is found is what would be made.
  refine hcall.bind fun _ _ => .modifyGet_bind fun ledger hledger => ?_
  obtain ⟨hfound, hbetween⟩ := hledger.get keys
  refine ⟨hbetween, ?_⟩
  cases hread : (ledger.get keys).1 with
  | some found =>
      rw [aggregateOf, hfound found hread]
      exact .pure found
  | none =>
      rw [aggregateOf]
      cases hmade : primitive keys with
      | error fault => exact .lift (.error fault.ofPrimitive)
      | ok made =>
          intro between hfaithful
          obtain ⟨hkept, hafter⟩ := hfaithful.put hmade
          have hrun : (modifyGet (Ledger.put keys made) : Action Aggregate).run between =
              (.ok (between.put keys made).1, (between.put keys made).2) := rfl
          refine ⟨_, hrun.trans ?_, hafter⟩
          rw [hkept]
          rfl

/-- The three ways in which a call goes: the keys are found, or the primitive refuses them, or makes
their aggregate, which is written down. -/
theorem run_aggregate_cases (primitive : Primitive) (keys : List PublicKey) (ledger : Ledger) :
    (∃ found, ((ledger.call keys).get keys).1 = some found ∧
        (aggregate primitive keys).run ledger = (.ok found, ((ledger.call keys).get keys).2)) ∨
      (∃ fault, ((ledger.call keys).get keys).1 = none ∧ primitive keys = .error fault ∧
        (aggregate primitive keys).run ledger =
          (.error fault.ofPrimitive, ((ledger.call keys).get keys).2)) ∨
      ∃ made, ((ledger.call keys).get keys).1 = none ∧ primitive keys = .ok made ∧
        (aggregate primitive keys).run ledger =
          (.ok (((ledger.call keys).get keys).2.put keys made).1,
            (((ledger.call keys).get keys).2.put keys made).2) := by
  unfold aggregate
  simp only [run_modify_bind, run_modifyGet_bind]
  rcases (ledger.call keys).get keys with ⟨found | found, between⟩
  · cases primitive keys with
    | error fault => exact .inr (.inl ⟨fault, rfl, rfl, rfl⟩)
    | ok made => exact .inr (.inr ⟨made, rfl, rfl, rfl⟩)
  · exact .inl ⟨found, rfl, rfl⟩

theorem answers_combination {ι : Type} (member : ι → Except Fault PublicKey)
    (combination : List ι) :
    Answers primitive (aggregateCombination primitive member combination)
      (combinationFor primitive member combination) :=
  .bind (.lift _) fun keys _ => .bind (answers_aggregate keys) fun _ _ => .pure _

theorem answers_combinations {ι : Type} (member : ι → Except Fault PublicKey)
    (combinations : List (List ι)) :
    Answers primitive (aggregateCombinations primitive member combinations)
      (combinations.mapM (combinationFor primitive member)) := by
  induction combinations with
  | nil => exact .pure _
  | cons combination rest ih =>
      rw [List.mapM_cons]
      exact .bind (answers_combination member combination) fun _ _ =>
        .bind ih fun _ _ => .pure _

theorem answers_aggregateCombination (participants : List PublicKey) (combination : Combination) :
    Answers primitive (aggregateCombination primitive (participantOf participants) combination)
      (quorumFor primitive participants combination) :=
  answers_combination (participantOf participants) combination

theorem answers_aggregateCombinations (participants : List PublicKey)
    (combinations : List Combination) :
    Answers primitive
      (aggregateCombinations primitive (participantOf participants) combinations)
      (combinations.mapM (quorumFor primitive participants)) :=
  answers_combinations (participantOf participants) combinations

end QuorumTree
