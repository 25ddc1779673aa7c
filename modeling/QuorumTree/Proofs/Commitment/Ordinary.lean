import QuorumTree.Proofs.Commitment.Refusals

/-!
Committing to ordinary policies: keys in the forms that keys are given in, and numbers that count.
As long as the participants can be listed, such a policy is refused only as callers expect.
-/

namespace QuorumTree

/-! ### Refusals -/

theorem onlyExpected_withinCeiling (stated : StatedThreshold) (count : Nat) (ceiling : Number) :
    OnlyExpected (Combination.withinCeiling stated count ceiling) :=
  Combination.refusesOnly_withinCeiling (fun _ _ _ _ => rfl) (by decide) stated count ceiling

theorem onlyExpected_pruneData_quorums {t : Threshold} {budget : Datum} {given : Option Number}
    (hbudget : budget.toOptionalNumber = .ok given) (total : Int) :
    OnlyExpected (pruneData (Source.quorums t) (.int total) budget) := by
  refine refusesOnly_pruneData (Source.lists_quorums t) ?_ (fun _ => rfl) (by decide) (by decide)
    total
  rw [hbudget]
  exact RefusesOnly.ok _

namespace Controller

variable {controller : Controller} {request : PolicyRequest}

theorem RefusesKeysOnly.onlyExpected_aggregateOf (h : controller.RefusesKeysOnly)
    (keys : List PublicKey) : OnlyExpected (aggregateOf controller.primitive keys) := by
  intro fault hfault
  unfold aggregateOf at hfault
  cases hmade : controller.primitive keys with
  | ok made =>
      rw [hmade] at hfault
      cases hfault
  | error refused =>
      rw [hmade] at hfault
      cases hfault
      exact h.isExpected hmade

theorem RefusesKeysOnly.onlyExpected_quorumFor (h : controller.RefusesKeysOnly)
    {participants : List PublicKey} {combination : Combination}
    (hbound : ∀ index ∈ combination, index < participants.length) :
    OnlyExpected (quorumFor controller.primitive participants combination) :=
  .bind_of_ok (mapM_participantOf hbound)
    (.bind (h.onlyExpected_aggregateOf _) fun _ => RefusesOnly.ok _)

theorem RefusesKeysOnly.onlyExpected_internalKeyFor (h : controller.RefusesKeysOnly)
    (participants : List PublicKey) (given : Datum) :
    OnlyExpected (internalKeyFor controller.primitive participants given) := by
  cases given with
  | null => exact .bind (h.onlyExpected_aggregateOf participants) fun _ => RefusesOnly.ok _
  | _ => exact RefusesOnly.ok _

/-- An ordinary policy with few enough participants to be listed is refused only as callers expect.
-/
theorem onlyExpected_committed [Machine] {values : List Datum} {signers : Int}
    {given : Option Number} {ceiling : Number} (hpubkeys : request.pubkeys = .list values)
    (hvalues : ∀ value ∈ values, value.IsKeyLike) (hfew : values.length < 2 ^ 63)
    (hholds : Machine.holdsIndices values.length = true)
    (hthreshold : request.threshold.toInt? = some signers)
    (hbudget : request.budget.toOptionalNumber = .ok given)
    (hceiling : (request.ceiling.orElse controller.ceiling).toNumber = .ok ceiling)
    (hworkers : checkWorkers controller.workers = .ok ())
    (hprimitive : controller.RefusesKeysOnly) : OnlyExpected (controller.committed request) := by
  obtain ⟨m, hm, hcount⟩ := Datum.exists_number_of_toInt? hthreshold
  have hitems : request.pubkeys.items = .ok values := by
    rw [hpubkeys]
    rfl
  have hstated (participants : Nat) :
      request.threshold.toStated participants = StatedThreshold.of m (.whole participants) := by
    rw [hm]
    rfl
  refine .bind_of_ok hitems (.bind_of_answer (onlyExpected_sortParticipants hvalues) ?_)
  intro participants hsorted
  rw [hstated]
  refine .bind_of_answer (onlyExpected_of m _) fun stated hof => ?_
  obtain ⟨hone, hle, rfl⟩ := (StatedThreshold.of_eq_ok_iff hcount).mp hof
  refine .bind_of_answer (onlyExpected_settle hcount hone hle) fun threshold hsettled => ?_
  have hn : participants.length = threshold.n := by
    obtain ⟨-, hn⟩ := StatedThreshold.settle_eq_ok_iff.mp hsettled
    exact Int.ofNat_inj.mp (Option.some.inj hn)
  rw [← length_of_sortParticipants hsorted, hn] at hfew hholds
  refine .bind_of_ok hceiling (.bind_of_answer (onlyExpected_withinCeiling _ _ _) ?_)
  intro total htotal
  obtain rfl := Combination.eq_of_withinCeiling htotal
  refine .bind_of_ok (Combination.listable_eq_ok_iff.mpr ⟨rfl, hfew, hholds⟩) ?_
  refine .bind_of_answer (onlyExpected_pruneData_quorums hbudget _) fun pruned hpruned => ?_
  have hquorums : OnlyExpected
      (pruned.retained.mapM (quorumFor controller.primitive participants)) := by
    refine .mapM fun combination hcombination => ?_
    refine hprimitive.onlyExpected_quorumFor fun index hindex => ?_
    rw [hn]
    exact lt_of_mem_retained hpruned hcombination hindex
  refine .bind_of_ok hworkers (.bind hquorums fun quorums => ?_)
  exact .bind (MerkleTree.refusesOnly_ofLeaves (by decide) _) fun _ =>
    .bind (hprimitive.onlyExpected_internalKeyFor _ _) fun _ => RefusesOnly.ok _

/-- What is refused of a policy is refused whatever was aggregated before. -/
theorem run_commit_eq_error_iff [Machine] {ledger : Ledger}
    (hledger : ledger.IsFaithful controller.primitive) {fault : Fault} :
    ((controller.commit request).run ledger).1 = .error fault ↔
      controller.committed request = .error fault := by
  obtain ⟨after, hrun, -⟩ := answers_commitPruned controller request ledger hledger
  rw [commit, ← bind_pure_comp, run_bind, hrun]
  cases controller.committed request with
  | ok made => exact iff_of_false nofun nofun
  | error refused =>
      change (Except.error refused : Except Fault Commitment) = _ ↔ _
      rw [Except.error.injEq, Except.error.injEq]

end Controller

/-! ### Bounds -/

section Bounds

variable [Machine] {controller : Controller} {request : PolicyRequest} {commitment : Commitment}
  {dropped : Number}

/-- Where there is a commitment its participants could be listed, and its budget is not negative. -/
theorem bounds_of_committed (h : controller.committed request = .ok (commitment, dropped)) :
    Combination.listable commitment.threshold = .ok commitment.threshold ∧
      ∀ budget, commitment.budget = some budget → budget.lt (.whole 0) = false := by
  simp only [Controller.committed, bind_eq_ok_iff] at h
  obtain ⟨values, -, participants, -, stated, -, threshold, -, ceiling, -, total, htotal, listed,
    hlisted, pruned, hpruned, -, -, quorums, -, tree, -, internalKey, -, hcommitment⟩ := h
  obtain rfl := Combination.eq_of_withinCeiling htotal
  obtain ⟨rfl, -⟩ := Combination.listable_eq_ok_iff.mp hlisted
  cases hcommitment
  exact ⟨hlisted, (pruneData_quorums hpruned).2.2.2.1⟩

/-- No more quorums are kept than there are. -/
theorem Commitment.IsOf.dropped_nonneg {primitive : Primitive}
    (h : commitment.IsOf primitive request) : 0 ≤ commitment.dropped := by
  have hlength : commitment.quorums.length ≤ commitment.total := by
    have hcombinations := congrArg List.length h.combinations
    rw [Commitment.combinations, List.length_map, List.length_take, Combination.length_all,
      ← Combination.count_eq_choose, ← h.total] at hcombinations
    omega
  rw [Commitment.dropped]
  omega

end Bounds

end QuorumTree
