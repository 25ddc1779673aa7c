import QuorumTree.Proofs.Aggregation.Calls
import QuorumTree.Proofs.Commitment.Contents
import QuorumTree.Settings

/-!
The work of committing. A policy is looked at in full before anything is aggregated, so one that is
refused for what it says costs nothing; after that no more is aggregated than what the commitment is
made of, and nothing behind the first list of keys that the primitive refuses.
-/

namespace QuorumTree

variable {primitive : Primitive}

/-- The key lists that an internal key is aggregated from, where none is given. -/
def internalKeyCalls (participants : List PublicKey) : Datum → List (List PublicKey)
  | .null => [participants]
  | _ => []

/-- The key lists that a commitment to these quorums is aggregated from: those of the quorums, in
order, and then that of the internal key. -/
def callsFor (participants : List PublicKey) (quorums : List Combination) (internalKey : Datum) :
    List (List PublicKey) :=
  quorums.map (Combination.keysIn participants) ++ internalKeyCalls participants internalKey

/-! ### Before anything is aggregated -/

namespace PolicyRequest

variable [Machine]

/-- The participants of a policy, and the threshold that is stated for them and settled. -/
structure IsSettled (request : PolicyRequest) (participants : List PublicKey)
    (stated : StatedThreshold) (threshold : Threshold) : Prop where
  sorted : ∃ values, request.pubkeys.items = .ok values ∧
    sortParticipants values = .ok participants
  states : request.threshold.toStated participants.length = .ok stated
  settles : stated.settle = .ok threshold

/-- A settled policy that has, before any are pruned, no more quorums than the ceiling. -/
structure IsWithin (request : PolicyRequest) (ceiling : Datum) (participants : List PublicKey)
    (stated : StatedThreshold) (threshold : Threshold) : Prop
    extends request.IsSettled participants stated threshold where
  limit : ∃ limit, ceiling.toNumber = .ok limit ∧
    limit.lt (.whole (threshold.n.choose threshold.m)) = false

/-- The key lists that are to be aggregated for a policy under a ceiling, which it is within. -/
def Plans (request : PolicyRequest) (ceiling : Datum) (planned : List (List PublicKey)) : Prop :=
  ∃ participants stated threshold budget enumeration,
    request.IsWithin ceiling participants stated threshold ∧
    request.budget.toOptionalNumber = .ok budget ∧
    Combination.IsLexEnumeration threshold.n threshold.m enumeration ∧
    planned = callsFor participants
      (enumeration.take (retainedCount (threshold.n.choose threshold.m) budget))
      request.internalKey

/-- The policy is within the ceiling, it has few enough participants for its quorums to be listed,
and its budget, if it has one, lets some of these through. -/
def IsAcceptable (request : PolicyRequest) (ceiling : Datum) : Prop :=
  ∃ participants stated threshold, request.IsWithin ceiling participants stated threshold ∧
    Combination.listable threshold = .ok threshold ∧
    (request.budget = .null ∨
      ∃ count : Int, request.budget = .int count ∧ 1 ≤ count ∧ count ≤ maxBudget)

/-- What is wrong with a policy under a ceiling, in the order in which it is looked for. -/
inductive IsTurnedDown (request : PolicyRequest) (ceiling : Datum) : Fault → Prop
  /-- A participant is no key. -/
  | badKey {values : List Datum} {fault : Fault} (hvalues : request.pubkeys.items = .ok values)
      (hkeys : values.mapM PublicKey.ofDatum = .error fault) : IsTurnedDown request ceiling fault
  | nobody (hvalues : request.pubkeys.items = .ok []) :
      IsTurnedDown request ceiling .noParticipants
  /-- A participant is listed twice. -/
  | repeated {values : List Datum} {keys : List PublicKey} {key : PublicKey}
      (hvalues : request.pubkeys.items = .ok values) (hkeys : Denote values keys)
      (hkey : firstRepeated (keys.mergeSort PublicKey.le) = some key) :
      IsTurnedDown request ceiling (.repeatedParticipant key.bytes)
  /-- The threshold is for another number of participants. -/
  | mismatch {values : List Datum} {participants : List PublicKey} {given : StatedThreshold}
      (hvalues : request.pubkeys.items = .ok values)
      (hsorted : sortParticipants values = .ok participants)
      (hgiven : request.threshold = .threshold given)
      (hother : given.n.same (.whole participants.length) = false) :
      IsTurnedDown request ceiling (.telling [given.m, given.n]
        (.thresholdMismatch given.m given.n participants.length))
  /-- The number of signers is no threshold for the participants. -/
  | badThreshold {values : List Datum} {participants : List PublicKey} {m : Number} {fault : Fault}
      (hvalues : request.pubkeys.items = .ok values)
      (hsorted : sortParticipants values = .ok participants)
      (hgiven : request.threshold = .number m)
      (hthreshold : StatedThreshold.of m (.whole participants.length) = .error fault) :
      IsTurnedDown request ceiling fault
  /-- There are more quorums than the ceiling, whatever the budget. -/
  | tooMany {participants : List PublicKey} {stated : StatedThreshold} {threshold : Threshold}
      {limit : Number} (hsettled : request.IsSettled participants stated threshold)
      (hlimit : ceiling.toNumber = .ok limit)
      (hmore : limit.lt (.whole (threshold.n.choose threshold.m)) = true) :
      IsTurnedDown request ceiling
        (.telling [stated.n, stated.m, .whole (threshold.n.choose threshold.m), limit]
          (.tooManyCombinations stated.n stated.m (threshold.n.choose threshold.m) limit))
  /-- There are too many participants to be listed. -/
  | unlisted {participants : List PublicKey} {stated : StatedThreshold} {threshold : Threshold}
      {fault : Fault} (hwithin : request.IsWithin ceiling participants stated threshold)
      (hunlisted : Combination.listable threshold = .error fault) :
      IsTurnedDown request ceiling fault
  | negativeBudget {participants : List PublicKey} {stated : StatedThreshold}
      {threshold : Threshold} {budget : Number}
      (hwithin : request.IsWithin ceiling participants stated threshold)
      (hlisted : Combination.listable threshold = .ok threshold)
      (hbudget : request.budget = .number budget) (hnegative : budget.lt (.whole 0) = true) :
      IsTurnedDown request ceiling (.telling [budget] (.negativeBudget budget))
  /-- The budget lets no quorum through. -/
  | emptyBudget {participants : List PublicKey} {stated : StatedThreshold} {threshold : Threshold}
      {budget : Number} (hwithin : request.IsWithin ceiling participants stated threshold)
      (hlisted : Combination.listable threshold = .ok threshold)
      (hbudget : request.budget = .number budget) (hzero : budget.toInt? = some 0) :
      IsTurnedDown request ceiling .noLeaves

/-- The ceiling that a policy is held to: its own, or else that of the controller, or else the one
that is configured. -/
def effectiveCeiling (request : PolicyRequest) (settings : Settings) (own : Datum) : Datum :=
  request.ceiling.orElse (own.orElse (.int settings.maxCombinations))

end PolicyRequest

/-- A policy as it is known before anything is aggregated. -/
structure AcceptedPolicy where
  participants : List PublicKey
  stated : StatedThreshold
  threshold : Threshold
  total : Nat
  pruned : Pruned Combination

/-- The part of committing that looks at the policy. -/
def PolicyRequest.accept [Machine] (request : PolicyRequest) (ceiling : Datum) :
    Except Fault AcceptedPolicy := do
  let participants ← sortParticipants (← request.pubkeys.items)
  let stated ← request.threshold.toStated participants.length
  let threshold ← stated.settle
  let limit ← ceiling.toNumber
  let total ← Combination.withinCeiling stated (Combination.count threshold) limit
  let threshold ← Combination.listable threshold
  let pruned ← pruneData (Source.quorums threshold) (.int total) request.budget
  return ⟨participants, stated, threshold, total, pruned⟩

/-- The part of committing that aggregates. -/
def Controller.commitAccepted (controller : Controller) (internalKey : Datum)
    (policy : AcceptedPolicy) : Action (Commitment × Number) := do
  report policy.pruned.notices
  checkWorkers controller.workers
  let quorums ← aggregateCombinations controller.primitive (participantOf policy.participants)
    policy.pruned.retained
  let tree ← MerkleTree.ofLeaves (quorums.map AggregatedKey.leafHash)
  let internalKey ← controller.internalKeyOf policy.participants internalKey
  report [.committed policy.stated tree.leafCount tree.depth tree.root]
  return (⟨policy.participants, policy.threshold, policy.stated, quorums, tree, policy.total,
    internalKey, policy.pruned.budget⟩, policy.pruned.dropped)

theorem Controller.commitPruned_eq [Machine] (controller : Controller) (request : PolicyRequest) :
    controller.commitPruned request =
      liftM (request.accept (request.ceiling.orElse controller.ceiling)) >>=
        controller.commitAccepted request.internalKey := by
  simp only [PolicyRequest.accept, lift_bind_bind]
  rfl

namespace PolicyRequest

variable [Machine] {request : PolicyRequest} {ceiling : Datum} {participants : List PublicKey}
  {stated : StatedThreshold} {threshold : Threshold} {policy : AcceptedPolicy}

theorem accept_eq_of_sortParticipants {values : List Datum} {fault : Fault}
    (hvalues : request.pubkeys.items = .ok values)
    (h : sortParticipants values = .error fault) (ceiling : Datum) :
    request.accept ceiling = .error fault := by
  simp only [accept, hvalues, h, bind, Except.bind]

theorem IsSettled.accept_eq (h : request.IsSettled participants stated threshold)
    (ceiling : Datum) :
    request.accept ceiling = do
      let total ← Combination.withinCeiling stated (threshold.n.choose threshold.m)
        (← ceiling.toNumber)
      let listed ← Combination.listable threshold
      let pruned ← pruneData (Source.quorums listed) (.int total) request.budget
      return ⟨participants, stated, listed, total, pruned⟩ := by
  obtain ⟨values, hvalues, hsorted⟩ := h.sorted
  rw [← Combination.count_eq_choose]
  simp only [accept, hvalues, hsorted, h.states, h.settles, bind, Except.bind]

/-- Within the ceiling it is only the list of participants and the budget that are left to look at.
-/
theorem IsWithin.accept_eq (h : request.IsWithin ceiling participants stated threshold) :
    request.accept ceiling = do
      let listed ← Combination.listable threshold
      let pruned ← pruneData (Source.quorums listed)
        (.int (threshold.n.choose threshold.m : Nat)) request.budget
      return ⟨participants, stated, listed, threshold.n.choose threshold.m, pruned⟩ := by
  obtain ⟨limit, hlimit, hwithin⟩ := h.limit
  simp only [h.toIsSettled.accept_eq, hlimit, Combination.withinCeiling, hwithin,
    Bool.false_eq_true, if_false, bind, Except.bind]

theorem IsWithin.accept_eq_of_listable
    (h : request.IsWithin ceiling participants stated threshold)
    (hlisted : Combination.listable threshold = .ok threshold) :
    request.accept ceiling = do
      let pruned ← pruneData (Source.quorums threshold)
        (.int (threshold.n.choose threshold.m : Nat)) request.budget
      return ⟨participants, stated, threshold, threshold.n.choose threshold.m, pruned⟩ := by
  rw [h.accept_eq, hlisted]
  rfl

/-- A policy that something is wrong with is not accepted, or none of its quorums is kept. -/
theorem IsTurnedDown.accept_eq {fault : Fault} (h : request.IsTurnedDown ceiling fault) :
    request.accept ceiling = .error fault ∨ fault = .noLeaves ∧
      ∃ policy, request.accept ceiling = .ok policy ∧ policy.pruned.retained = [] := by
  cases h with
  | badKey hvalues hkeys =>
      left
      apply accept_eq_of_sortParticipants hvalues
      rw [sortParticipants, hkeys]
      rfl
  | nobody hvalues =>
      left
      have hnone : Denote [] [] := rfl
      apply accept_eq_of_sortParticipants hvalues
      rw [sortParticipants_of_denote hnone, List.mergeSort_nil]
      rfl
  | @repeated _ keys _ hvalues hkeys hkey =>
      left
      apply accept_eq_of_sortParticipants hvalues
      have hnonempty : ¬ (keys.mergeSort PublicKey.le).isEmpty = true := by
        intro hempty
        rw [List.isEmpty_iff.mp hempty] at hkey
        cases hkey
      rw [sortParticipants_of_denote hkeys, if_neg hnonempty, hkey]
  | mismatch hvalues hsorted hgiven hother =>
      left
      simp only [accept, hvalues, hsorted, hgiven, Datum.toStated, hother, Bool.false_eq_true,
        if_false, bind, Except.bind]
  | badThreshold hvalues hsorted hgiven hthreshold =>
      left
      simp only [accept, hvalues, hsorted, hgiven, Datum.toStated, Datum.toNumber,
        Datum.toNumber?, hthreshold, bind, Except.bind]
  | tooMany hsettled hlimit hmore =>
      left
      simp only [hsettled.accept_eq, hlimit, Combination.withinCeiling, hmore, if_true, bind,
        Except.bind]
  | unlisted hwithin hunlisted =>
      left
      simp only [hwithin.accept_eq, hunlisted, bind, Except.bind]
  | @negativeBudget _ _ _ budget hwithin hlisted hbudget hnegative =>
      left
      simp only [hwithin.accept_eq_of_listable hlisted, hbudget, pruneData, Datum.toOptionalNumber,
        Datum.toNumber, Datum.toNumber?, Except.map, checkBudget, hnegative, if_true, bind,
        Except.bind]
  | @emptyBudget _ _ threshold _ hwithin hlisted hbudget hzero =>
      right
      have hcount := Nat.choose_pos threshold.le
      rw [hwithin.accept_eq_of_listable hlisted, hbudget, pruneData_of_toInt?_eq_zero hcount hzero]
      exact ⟨rfl, _, rfl, rfl⟩

theorem IsTurnedDown.eq_of_refused {fault refusal : Fault} (h : request.IsTurnedDown ceiling fault)
    (haccept : request.accept ceiling = .error refusal) : fault = refusal := by
  obtain herror | ⟨-, policy, hok, -⟩ := h.accept_eq
  · rw [haccept, Except.error.injEq] at herror
    exact herror.symm
  · rw [haccept] at hok
    cases hok

theorem IsTurnedDown.of_accept {fault : Fault} (h : request.IsTurnedDown ceiling fault)
    (haccept : request.accept ceiling = .ok policy) :
    fault = .noLeaves ∧ policy.pruned.retained = [] := by
  obtain herror | ⟨hfault, found, hok, hnone⟩ := h.accept_eq
  · rw [haccept] at herror
    cases herror
  · rw [haccept, Except.ok.injEq] at hok
    subst hok
    exact ⟨hfault, hnone⟩

theorem IsAcceptable.exists_accept (h : request.IsAcceptable ceiling) :
    ∃ policy, request.accept ceiling = .ok policy ∧ policy.pruned.retained ≠ [] := by
  obtain ⟨participants, stated, threshold, hwithin, hlisted, hbudget⟩ := h
  obtain ⟨pruned, hpruned, hsome⟩ := exists_pruneData_quorums (t := threshold) hbudget
  rw [Combination.count_eq_choose] at hpruned
  rw [hwithin.accept_eq_of_listable hlisted, hpruned]
  exact ⟨_, rfl, hsome⟩

/-- What is accepted is within the ceiling, and what is kept of it is what its budget lets through.
-/
theorem isWithin_of_accept (h : request.accept ceiling = .ok policy) :
    request.IsWithin ceiling policy.participants policy.stated policy.threshold ∧
      request.budget.toOptionalNumber = .ok policy.pruned.budget ∧
      policy.pruned.retained = (Combination.all policy.threshold).take
        (retainedCount (policy.threshold.n.choose policy.threshold.m) policy.pruned.budget) := by
  simp only [accept, bind_eq_ok_iff] at h
  obtain ⟨values, hvalues, participants, hsorted, stated, hstated, threshold, hsettled, limit,
    hlimit, total, htotal, listed, hlisted, pruned, hpruned, hpolicy⟩ := h
  obtain ⟨rfl, -⟩ := Combination.listable_eq_ok_iff.mp hlisted
  cases hpolicy
  rw [← Combination.count_eq_choose]
  unfold Combination.withinCeiling at htotal
  split_ifs at htotal with hmore
  · cases htotal
    obtain ⟨hbudget, hretained, -, -, -⟩ := pruneData_quorums hpruned
    rw [Bool.not_eq_true, Combination.count_eq_choose] at hmore
    exact ⟨⟨⟨⟨values, hvalues, hsorted⟩, hstated, hsettled⟩, limit, hlimit, hmore⟩, hbudget,
      hretained⟩

theorem plans_of_accept (h : request.accept ceiling = .ok policy) :
    request.Plans ceiling
      (callsFor policy.participants policy.pruned.retained request.internalKey) := by
  obtain ⟨hwithin, hbudget, hretained⟩ := isWithin_of_accept h
  rw [hretained]
  exact ⟨_, _, _, _, _, hwithin, hbudget, Combination.isLexEnumeration_all _, rfl⟩

/-- The members of the quorums that are kept are all participants. -/
theorem mapM_retained (h : request.accept ceiling = .ok policy) :
    policy.pruned.retained.mapM (·.mapM (participantOf policy.participants)) =
      .ok (policy.pruned.retained.map (Combination.keysIn policy.participants)) := by
  obtain ⟨hwithin, -, hretained⟩ := isWithin_of_accept h
  rw [mapM_eq_ok_iff, List.forall₂_map_right_iff, List.forall₂_same]
  intro combination hcombination
  apply mapM_participantOf
  rw [hretained] at hcombination
  rw [← n_eq_of_toStated hwithin.states hwithin.settles]
  exact (Combination.mem_all_iff.mp (List.mem_of_mem_take hcombination)).2.2

end PolicyRequest

/-! ### While it is aggregated -/

theorem asksInTurn_report (notices : List Notice) :
    (report notices).AsksInTurn primitive [] fun _ => True :=
  .modify fun _ => rfl

namespace Controller

variable {controller : Controller} {request : PolicyRequest} {policy : AcceptedPolicy}

theorem asksInTurn_internalKeyOf (controller : Controller) (participants : List PublicKey)
    (given : Datum) :
    (controller.internalKeyOf participants given).AsksInTurn controller.primitive
      (internalKeyCalls participants given) fun _ => True := by
  cases given with
  | null => exact (asksInTurn_aggregate participants).bind_silent fun _ _ => .pure trivial
  | _ => exact .pure trivial

/-- Without any quorum there is no tree, and no internal key is made. -/
theorem run_commitAccepted_nil (hworkers : controller.workers = .int 1)
    (hnone : policy.pruned.retained = []) (internalKey : Datum) (ledger : Ledger) :
    (controller.commitAccepted internalKey policy).run ledger =
      (.error .noLeaves, ledger.report policy.pruned.notices) := by
  rw [commitAccepted, hworkers, hnone]
  rfl

theorem asksInTurn_commitAccepted (hworkers : controller.workers = .int 1)
    (hsome : policy.pruned.retained ≠ [])
    (hmembers : policy.pruned.retained.mapM (·.mapM (participantOf policy.participants)) =
      .ok (policy.pruned.retained.map (Combination.keysIn policy.participants)))
    (internalKey : Datum) :
    (controller.commitAccepted internalKey policy).AsksInTurn controller.primitive
      (callsFor policy.participants policy.pruned.retained internalKey) fun _ => True := by
  have hchecked : checkWorkers controller.workers = .ok () := by
    rw [hworkers]
    rfl
  refine (asksInTurn_report _).silent_bind fun _ _ => ?_
  apply Action.AsksInTurn.lift_bind hchecked
  refine (asksInTurn_aggregateCombinations hmembers).bind fun quorums hlength => ?_
  -- There are as many leaves as quorums, so there is a tree over them.
  obtain ⟨quorum, rest, rfl⟩ : ∃ quorum rest, quorums = quorum :: rest := by
    apply List.exists_cons_of_ne_nil
    rintro rfl
    exact hsome (List.length_eq_zero_iff.mp hlength.symm)
  refine Action.AsksInTurn.lift_bind rfl ?_
  refine (controller.asksInTurn_internalKeyOf _ internalKey).bind_silent fun _ _ => ?_
  exact (asksInTurn_report _).silent_bind fun _ _ => .pure trivial

/-- Committing is refused with the policy, or for want of a quorum, before anything is aggregated;
or else nothing is wrong with the policy, and it asks for the planned aggregates in turn. -/
theorem run_commitPruned_cases [Machine] (hworkers : controller.workers = .int 1)
    (request : PolicyRequest)
    (ledger : Ledger) :
    let ceiling := request.ceiling.orElse controller.ceiling
    let run := (controller.commitPruned request).run ledger
    (∃ refusal, run.1 = .error refusal ∧ run.2.calls = ledger.calls ∧
      run.2.cache = ledger.cache ∧ ¬ request.IsAcceptable ceiling ∧
      ∀ fault, request.IsTurnedDown ceiling fault → fault = refusal) ∨
    ∃ planned made, request.Plans ceiling planned ∧ run.2.calls = ledger.calls ++ made ∧
      AskedInTurn controller.primitive planned (fun _ => True) made run.1 ∧ made ≠ [] ∧
      ∀ fault, ¬ request.IsTurnedDown ceiling fault := by
  dsimp only
  rw [commitPruned_eq]
  cases haccept : request.accept (request.ceiling.orElse controller.ceiling) with
  | error refusal =>
      left
      refine ⟨refusal, rfl, rfl, rfl, fun hacceptable => ?_, fun _ h => h.eq_of_refused haccept⟩
      obtain ⟨policy, hok, -⟩ := hacceptable.exists_accept
      rw [haccept] at hok
      cases hok
  | ok policy =>
      rw [run_bind_of_ok (run_lift_eq_ok_iff.mpr ⟨rfl, rfl⟩)]
      by_cases hnone : policy.pruned.retained = []
      · left
        rw [run_commitAccepted_nil hworkers hnone]
        refine ⟨.noLeaves, rfl, rfl, rfl, fun hacceptable => ?_, fun _ h => (h.of_accept haccept).1⟩
        obtain ⟨found, hok, hsome⟩ := hacceptable.exists_accept
        rw [haccept, Except.ok.injEq] at hok
        exact hsome (hok ▸ hnone)
      · right
        obtain ⟨made, hcalls, hasked⟩ := asksInTurn_commitAccepted hworkers hnone
          (PolicyRequest.mapM_retained haccept) request.internalKey ledger
        have hplanned : callsFor policy.participants policy.pruned.retained request.internalKey ≠
            [] := List.append_ne_nil_of_left_ne_nil (List.map_eq_nil_iff.not.mpr hnone) _
        exact ⟨_, made, PolicyRequest.plans_of_accept haccept, hcalls, hasked,
          hasked.ne_nil hplanned, fun fault h => hnone (h.of_accept haccept).2⟩

end Controller

/-- Committing asks for no more aggregates than its policy plans, in the planned order, and only for
a policy that is within the ceiling; all of them have been asked for when it answers. When it is
refused, nothing was asked for and the cache is as it was, or the primitive has refused the last
list of keys, which is the only way for an acceptable policy; and whatever is wrong with the policy
itself is found while nothing was asked for. -/
theorem Controller.commit_calls_planned [Machine] {settings : Settings} {own : Datum}
    {request : PolicyRequest} {ledger after : Ledger} {outcome : Except Fault (Commitment × Number)}
    (hrun : ((settings.controller primitive own (.int 1)).commitPruned request).run ledger =
      (outcome, after)) :
    ∃ made, after.calls = ledger.calls ++ made ∧
      (made ≠ [] → ∃ planned, request.Plans (request.effectiveCeiling settings own) planned ∧
        made <+: planned) ∧
      (∀ answer, outcome = .ok answer →
        request.Plans (request.effectiveCeiling settings own) made) ∧
      (∀ fault, outcome = .error fault →
        made = [] ∧ after.cache = ledger.cache ∨
          ∃ before keys refusal, made = before ++ [keys] ∧ primitive keys = .error refusal ∧
            fault = refusal.ofPrimitive) ∧
      (request.IsAcceptable (request.effectiveCeiling settings own) → made ≠ []) ∧
      ∀ fault, request.IsTurnedDown (request.effectiveCeiling settings own) fault →
        outcome = .error fault ∧ made = [] ∧ after.cache = ledger.cache := by
  have hcases := (settings.controller primitive own (.int 1)).run_commitPruned_cases rfl request
    ledger
  have hceiling : request.ceiling.orElse (settings.controller primitive own (.int 1)).ceiling =
      request.effectiveCeiling settings own := rfl
  dsimp only at hcases
  rw [hrun, hceiling] at hcases
  obtain ⟨refusal, houtcome, hcalls, hcache, hunacceptable, hrefusal⟩ |
    ⟨planned, made, hplans, hcalls, hasked, hmade, hnothing⟩ := hcases
  · dsimp only at houtcome
    subst houtcome
    refine ⟨[], hcalls.trans (List.append_nil _).symm, absurd rfl, ?_, ?_, ?_, ?_⟩
    · intro answer hanswer
      cases hanswer
    · exact fun _ _ => .inl ⟨rfl, hcache⟩
    · exact fun hacceptable => absurd hacceptable hunacceptable
    · intro fault hdown
      rw [hrefusal fault hdown]
      exact ⟨rfl, rfl, hcache⟩
  · refine ⟨made, hcalls, fun _ => ⟨planned, hplans, hasked.isPrefix⟩, ?_, ?_, ?_, ?_⟩
    · rintro answer rfl
      rw [hasked.eq_planned]
      exact hplans
    · rintro fault rfl
      exact .inr hasked.exists_refused
    · exact fun _ => hmade
    · intro fault hdown
      exact absurd hdown (hnothing fault)

namespace TwoOfThree

/-- A controller that aggregates one quorum after the other. -/
def serial : Controller :=
  Settings.default.controller musig (.int 10) (.int 1)

/-- The policy with a budget for none of its quorums. -/
def prunedAway : PolicyRequest :=
  { request with budget := .int 0 }

/-- A ledger that already holds an aggregate. -/
def remembered : Ledger :=
  ⟨some ⟨some 1, [([firstKey], ⟨firstKey, [1]⟩)], 2, 1⟩, [[firstKey]], []⟩

theorem committed_serial : serial.committed request = .ok (commitment, .whole 1) :=
  committed_request

theorem isWithin_request (budget : Datum) :
    PolicyRequest.IsWithin { request with budget := budget } (.int 10) commitment.participants
      commitment.stated commitment.threshold where
  sorted := ⟨values, rfl, sortParticipants_values⟩
  states := rfl
  settles := rfl
  limit := ⟨.whole 10, rfl, rfl⟩

theorem isAcceptable_request : request.IsAcceptable (.int 10) :=
  ⟨_, _, _, isWithin_request (.int 2), rfl, .inr ⟨2, rfl, by decide, by decide⟩⟩

/-- The planned aggregates are asked for; with a budget for none of the quorums, nothing is, and the
cache stays as it was. -/
theorem commit_calls_planned_two_of_three :
    (∃ answer after, (serial.commitPruned request).run (Ledger.withCache none) =
        (.ok answer, after) ∧ request.Plans (.int 10) after.calls ∧ after.calls ≠ []) ∧
      ∃ after, (serial.commitPruned prunedAway).run remembered = (.error .noLeaves, after) ∧
        after.calls = remembered.calls ∧ after.cache = remembered.cache := by
  constructor
  · obtain ⟨after, hrun, -⟩ :=
      answers_commitPruned serial request _ Ledger.isFaithful_withCache_none
    rw [committed_serial] at hrun
    obtain ⟨made, hcalls, -, hplans, -, hprogress, -⟩ := Controller.commit_calls_planned hrun
    have hmade : after.calls = made := hcalls
    rw [← hmade] at hplans hprogress
    exact ⟨_, after, hrun, hplans _ rfl, hprogress isAcceptable_request⟩
  · rcases hrun : (serial.commitPruned prunedAway).run remembered with ⟨outcome, after⟩
    obtain ⟨made, hcalls, -, -, -, -, hdown⟩ := Controller.commit_calls_planned hrun
    obtain ⟨rfl, rfl, hcache⟩ := hdown _ (.emptyBudget (isWithin_request (.int 0)) rfl rfl rfl)
    exact ⟨after, rfl, hcalls, hcache⟩

end TwoOfThree

end QuorumTree
