import QuorumTree.Proofs.Commitment.Contents

/-!
Making a commitment anew. A policy can be asked for again from what its commitment tells: the
participants, the number of signers, the budget, and some internal key. Everyone with the same
primitive then makes the same commitment, whatever their own ceiling, since its own number of
quorums is the ceiling that is asked for.
-/

namespace QuorumTree

/-- A number that may be missing, as a value. -/
def Datum.ofOptionalNumber : Option Number → Datum
  | some value => .number value
  | none => .null

theorem Datum.toOptionalNumber_ofOptionalNumber (value : Option Number) :
    (ofOptionalNumber value).toOptionalNumber = .ok value := by
  cases value <;> rfl

/-- Two commitments are equal. The signers and the budget may be stated in numbers of another kind,
which are compared by value; all else is the same. -/
structure Commitment.IsSame (commitment other : Commitment) : Prop where
  participants : commitment.participants = other.participants
  threshold : commitment.threshold = other.threshold
  stated : commitment.stated.m.same other.stated.m = true ∧
    commitment.stated.n.same other.stated.n = true
  quorums : commitment.quorums = other.quorums
  tree : commitment.tree = other.tree
  total : commitment.total = other.total
  internalKey : commitment.internalKey = other.internalKey
  budget : Option.Rel (fun given other => given.same other = true) commitment.budget other.budget

namespace Commitment

/-- The policy of a commitment as it is asked for again. -/
def policy (commitment : Commitment) (signers : Number) (budget : Option Number)
    (internalKey : PublicKey) : PolicyRequest where
  pubkeys := .list (commitment.participants.map .key)
  threshold := .number signers
  budget := .ofOptionalNumber budget
  internalKey := .key internalKey
  ceiling := .int commitment.total

/-- The commitment that is made when its policy is asked for again. -/
def renewed (commitment : Commitment) (signers : Number) (budget : Option Number)
    (internalKey : PublicKey) : Commitment :=
  { commitment with
    stated := ⟨signers, .whole commitment.threshold.n⟩
    internalKey := .key internalKey
    budget := budget }

section Renewed

variable (commitment : Commitment) (signers : Number) (budget : Option Number) (key : PublicKey)

@[simp] theorem root_renewed :
    (commitment.renewed signers budget key).root = commitment.root := rfl

@[simp] theorem dropped_renewed :
    (commitment.renewed signers budget key).dropped = commitment.dropped := rfl

end Renewed

theorem IsOf.place_budget_ne_nowhere [Machine] {primitive : Primitive} {request : PolicyRequest}
    {commitment : Commitment} (h : commitment.IsOf primitive request) {budget : Number}
    (hbudget : commitment.budget = some budget) : budget.place ≠ .nowhere := by
  cases hcount : budget.toInt? with
  | none => exact Number.place_ne_nowhere_of_le (h.covered budget hbudget hcount)
  | some count => exact Number.place_ne_nowhere_of_toInt? hcount

/-- With its own internal key, and the numbers it was stated in given back, the commitment that is
made again is the same. -/
theorem IsOf.isSame_renewed [Machine] {primitive : Primitive} {request : PolicyRequest}
    {commitment : Commitment} (h : commitment.IsOf primitive request) {signers : Number}
    {budget : Option Number} {key : PublicKey}
    (hsigners : signers.toInt? = some (commitment.threshold.m : Int))
    (hbudget : Option.Rel Number.IsGivenBackAs commitment.budget budget)
    (hkey : commitment.internalKey = .key key) :
    commitment.IsSame (commitment.renewed signers budget key) where
  participants := rfl
  threshold := rfl
  stated := by
    obtain ⟨hm, hn⟩ := StatedThreshold.settle_eq_ok_iff.mp h.settled
    have hwhole : (Number.whole commitment.threshold.n).toInt? =
      some (commitment.threshold.n : Int) := rfl
    constructor
    · rw [Number.same, hm]
      simp [renewed, hsigners]
    · rw [Number.same, hn]
      simp [renewed, hwhole]
  quorums := rfl
  tree := rfl
  total := rfl
  internalKey := hkey
  budget := Number.IsGivenBackAs.rel_same hbudget

end Commitment

/-- Asked for again, a policy comes to the same commitment and leaves out as many quorums. -/
theorem Controller.committed_policy [Machine] {controller loader : Controller}
    {request : PolicyRequest} {commitment : Commitment} {dropped : Number} {signers : Number}
    {budget : Option Number}
    (h : controller.committed request = .ok (commitment, dropped))
    (hprimitive : loader.primitive = controller.primitive)
    (hworkers : checkWorkers loader.workers = .ok ())
    (hsigners : signers.toInt? = some (commitment.threshold.m : Int))
    (hbudget : Option.Rel Number.IsGivenBackAs commitment.budget budget) (key : PublicKey) :
    loader.committed (commitment.policy signers budget key) =
      .ok (commitment.renewed signers budget key, dropped) := by
  have hn := (isOf_of_committed h).1.n_eq
  have htotal := (isOf_of_committed h).1.total
  simp only [Controller.committed, bind_eq_ok_iff] at h ⊢
  obtain ⟨values, -, participants, hsorted, stated, -, _, -, ceiling, -, total, -, threshold,
    hlisted, pruned, hpruned, -, -, quorums, hquorums, tree, htree, internalKey, -,
    hcommitment⟩ := h
  obtain ⟨rfl, -⟩ := Combination.listable_eq_ok_iff.mp hlisted
  cases hcommitment
  dsimp only at hn htotal hsigners hbudget
  subst htotal
  have hresorted : sortParticipants (participants.map .key) = .ok participants :=
    sortParticipants_eq_of_perm hsorted (denote_map_key participants) (List.Perm.refl _)
  have hstated : (Datum.number signers).toStated participants.length =
      .ok ⟨signers, .whole threshold.n⟩ := by
    rw [← hn]
    exact StatedThreshold.of_eq_ok hsigners
  have hsettled : StatedThreshold.settle ⟨signers, .whole threshold.n⟩ = .ok threshold :=
    StatedThreshold.settle_eq_ok_iff.mpr ⟨hsigners, rfl⟩
  have hceiling : Combination.withinCeiling ⟨signers, .whole threshold.n⟩
      (Combination.count threshold) (.whole (Combination.count threshold)) =
        .ok (Combination.count threshold) := by
    simp [Combination.withinCeiling]
  have hrepruned := pruneData_of_isGivenBackAs (Source.lists_quorums _) hpruned hbudget
    (Datum.toOptionalNumber_ofOptionalNumber budget)
  rw [← hprimitive] at hquorums
  exact ⟨_, rfl, participants, hresorted, _, hstated, threshold, hsettled, _, rfl, _, hceiling, _,
    hlisted, _, hrepruned, (), hworkers, quorums, hquorums, tree, htree, .key key, rfl, rfl⟩

end QuorumTree
