import QuorumTree.Commitment
import QuorumTree.Proofs.Aggregation.Quorums

/-!
What committing and checking come to. Apart from the ledger, both are plain computations from the
primitive and the policy; notices and the cache change nothing in their answers.
-/

namespace QuorumTree

variable {primitive : Primitive}

theorem Answers.report_bind {α : Type} {notices : List Notice} {next : Unit → Action α}
    {answer : Except Fault α} (h : Answers primitive (next ()) answer) :
    Answers primitive (report notices >>= next) answer := by
  have hreport : Answers primitive (report notices) (.ok ()) := .modify fun _ => rfl
  exact hreport.bind fun _ _ => h

/-- What the internal key of a policy comes to. -/
def internalKeyFor (primitive : Primitive) (participants : List PublicKey) :
    Datum → Except Fault Datum
  | .null => do return .key (← aggregateOf primitive participants).key
  | given => return given

/-- What committing to a policy comes to. -/
def Controller.committed [Machine] (controller : Controller) (request : PolicyRequest) :
    Except Fault (Commitment × Number) := do
  let participants ← sortParticipants (← request.pubkeys.items)
  let stated ← request.threshold.toStated participants.length
  let threshold ← stated.settle
  let ceiling ← (request.ceiling.orElse controller.ceiling).toNumber
  let total ← Combination.withinCeiling stated (Combination.count threshold) ceiling
  let threshold ← Combination.listable threshold
  let pruned ← pruneData (Source.quorums threshold) (.int total) request.budget
  checkWorkers controller.workers
  let quorums ← pruned.retained.mapM (quorumFor controller.primitive participants)
  let tree ← MerkleTree.ofLeaves (quorums.map AggregatedKey.leafHash)
  let internalKey ← internalKeyFor controller.primitive participants request.internalKey
  return (⟨participants, threshold, stated, quorums, tree, total, internalKey, pruned.budget⟩,
    pruned.dropped)

theorem answers_internalKeyOf (controller : Controller) (participants : List PublicKey)
    (given : Datum) :
    Answers controller.primitive (controller.internalKeyOf participants given)
      (internalKeyFor controller.primitive participants given) := by
  cases given with
  | null => exact .bind (answers_aggregate _) fun _ _ => .pure _
  | _ => exact .pure _

theorem answers_commitPruned [Machine] (controller : Controller) (request : PolicyRequest) :
    Answers controller.primitive (controller.commitPruned request)
      (controller.committed request) :=
  .bind (.lift _) fun _ _ => .bind (.lift _) fun participants _ => .bind (.lift _) fun _ _ =>
    .bind (.lift _) fun _ _ => .bind (.lift _) fun _ _ => .bind (.lift _) fun _ _ =>
    .bind (.lift _) fun _ _ => .bind (.lift _) fun _ _ => .report_bind (.bind (.lift _) fun _ _ =>
    .bind (answers_aggregateCombinations participants _) fun _ _ => .bind (.lift _) fun _ _ =>
    .bind (answers_internalKeyOf controller participants _) fun _ _ => .report_bind (.pure _))

/-- What a verifier re-derives of a quorum comes to. -/
def Controller.rederived [Machine] (controller : Controller) (request : PolicyRequest)
    (members : Datum) :
    Except Fault (PublicKey × Number) := do
  let participants ← sortParticipants (← request.pubkeys.items)
  let stated ← StatedThreshold.of (← request.threshold.toNumber) (.whole participants.length)
  let combination ← Combination.resolve participants (.number stated.m) (← members.items)
  let made ← quorumFor controller.primitive participants combination
  let count := Combination.count (← stated.settle)
  return (made.key, withinBudget count (← request.budget.toOptionalNumber))

/-- The key that a verifier makes again is the aggregate of the members that it was given. -/
theorem exists_of_rederived [Machine] {verifier : Controller} {request : PolicyRequest}
    {members : Datum} {key : PublicKey} {leafCount : Number}
    (h : verifier.rederived request members = .ok (key, leafCount)) :
    ∃ values participants named combination coefficients,
      request.pubkeys.items = .ok values ∧ sortParticipants values = .ok participants ∧
      members.items = .ok named ∧
      Combination.resolve participants request.threshold named = .ok combination ∧
      verifier.primitive (Combination.keysIn participants combination) =
        .ok ⟨key, coefficients⟩ := by
  simp only [Controller.rederived, bind_eq_ok_iff] at h
  obtain ⟨values, hvalues, participants, hsorted, m, hm, stated, hstated, named, hnamed,
    combination, hresolve, quorum, hquorum, _, -, _, -, hanswer⟩ := h
  have hthreshold : request.threshold = .number stated.m := by
    have hnumber : stated.m = m := by
      unfold StatedThreshold.of at hstated
      split_ifs at hstated
      cases hstated
      rfl
    rw [hnumber]
    cases hgiven : request.threshold <;> simp_all [Datum.toNumber, Datum.toNumber?]
  have hnodup := (isAscendingKeys_of_sortParticipants hsorted).nodup
  obtain ⟨indices, hindices, -, -, hperm, -⟩ := Combination.resolve_eq_ok_iff.mp hresolve
  have hbound : ∀ index ∈ combination, index < participants.length := fun index hindex =>
    Combination.lt_of_memberIndices hnodup hindices (hperm.subset hindex)
  obtain ⟨-, hmade⟩ := (quorumFor_eq_ok_iff hbound).mp hquorum
  cases hanswer
  exact ⟨values, participants, named, combination, quorum.coefficients, hvalues, hsorted, hnamed,
    hthreshold ▸ hresolve, hmade⟩

/-- What checking a proof for a quorum comes to. -/
def Controller.verdict [Machine] (controller : Controller) (request : PolicyRequest)
    (members proof root : Datum) : Except Fault Bool :=
  match controller.rederived request members with
  | .ok (key, leafCount) => .ok (verifySpend root (.key key) proof (.number leafCount))
  | .error fault => if fault.kind.isExpected then .ok false else .error fault

theorem answers_rederive [Machine] (controller : Controller) (request : PolicyRequest)
    (members : Datum) :
    Answers controller.primitive (controller.rederive request members)
      (controller.rederived request members) :=
  .bind (.lift _) fun _ _ => .bind (.lift _) fun participants _ => .bind (.lift _) fun _ _ =>
    .bind (.lift _) fun _ _ => .bind (.lift _) fun _ _ => .bind (.lift _) fun _ _ =>
    .bind (answers_aggregateCombination participants _) fun _ _ => .bind (.lift _) fun _ _ =>
    .bind (.lift _) fun _ _ => .pure _

theorem answers_verifySubset [Machine] (controller : Controller) (request : PolicyRequest)
    (members proof root : Datum) :
    Answers controller.primitive (controller.verifySubset request members proof root)
      (controller.verdict request members proof root) := by
  intro ledger hledger
  obtain ⟨after, hrun, hafter⟩ := answers_rederive controller request members ledger hledger
  refine ⟨after, ?_, hafter⟩
  change controller.verifySubset request members proof root ledger = _
  unfold Controller.verifySubset Controller.verdict
  rw [hrun]
  split <;> simp_all

end QuorumTree
