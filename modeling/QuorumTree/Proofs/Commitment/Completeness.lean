import QuorumTree.Proofs.Commitment.Contents
import QuorumTree.Proofs.Inclusion.Codec
import QuorumTree.Proofs.Inclusion.Completeness

/-!
Completeness of commitments. Every committed quorum has a proof, and both verifiers accept it: the
one that is told the aggregate key and the number of leaves, and the one that makes them again from
the policy.
-/

namespace QuorumTree

/-- A verifier counts as many leaves as were kept, provided there are any. -/
theorem toInt?_withinBudget {total : Nat} {budget : Option Number}
    (hcovered : ∀ given, budget = some given → given.toInt? = none →
      (Number.whole total).le given = true)
    (hpositive : 1 ≤ min (retainedCount total budget) total) :
    (withinBudget total budget).toInt? =
      some ((min (retainedCount total budget) total : Nat) : Int) := by
  have hwhole : (Number.whole total).toInt? = some (total : Int) := rfl
  unfold withinBudget
  unfold retainedCount at hpositive ⊢
  cases budget with
  | none => simp [hwhole]
  | some given =>
      rw [Option.bind_some] at hpositive ⊢
      cases hgiven : given.toInt? with
      | none => simp [Number.not_lt_of_le (hcovered given rfl hgiven), hwhole]
      | some count =>
          have hlt : given.lt (.whole total) = decide (count < (total : Int)) := by
            rw [Number.lt, hgiven]
            rfl
          rw [hgiven] at hpositive
          dsimp only at hpositive ⊢
          rw [hlt]
          -- A negative budget would keep nothing, so the budget below the total is what it counts.
          by_cases hbelow : count < (total : Int)
          · rw [decide_eq_true hbelow, if_pos rfl, hgiven, Option.some.injEq]
            omega
          · rw [decide_eq_false hbelow, if_neg Bool.false_ne_true, hwhole, Option.some.injEq]
            omega

/-- A proof that leads from a key's leaf to the root of a tree is accepted in both of its forms. -/
theorem verifySpend_of_rootFrom {tree : MerkleTree} {key : PublicKey} {proof : InclusionProof}
    {form : Datum} {leafCount : Number} (hcount : tree.leafCount ≤ 2 ^ maxProofDepth)
    (hlength : proof.steps.length = tree.depth)
    (hroot : proof.rootFrom (leafHash key.xOnly) = tree.root)
    (hform : form = proof.toDatum ∨ form = .bytes proof.encode)
    (hleafCount : leafCount.toInt? = some (tree.leafCount : Int)) :
    verifySpend (.bytes tree.root.bytes) (.key key) form (.number leafCount) = true := by
  have hdepth : proof.steps.length ≤ maxProofDepth := by
    rw [hlength, tree.depth_eq]
    exact treeDepth_le_iff.mpr hcount
  have hproof : form.toProof? = some proof := Datum.toProof?_eq_some_iff.mpr ⟨hdepth, hform⟩
  exact tree.verifyData_of_rootFrom hcount hlength hroot hproof hleafCount

section

variable [Machine]

/-- Both list the same keys, in any order and however each key is written. -/
def Datum.ListSameKeys (pubkeys others : Datum) : Prop :=
  ∃ values keys otherValues otherKeys, pubkeys.items = .ok values ∧ Denote values keys ∧
    others.items = .ok otherValues ∧ Denote otherValues otherKeys ∧ otherKeys.Perm keys

/-- What a verifier is told of a policy: the same keys, as many signers, now stated as a number, and
the same budget. -/
structure PolicyRequest.IsRestatedBy (request restated : PolicyRequest) : Prop where
  pubkeys : request.pubkeys.ListSameKeys restated.pubkeys
  threshold : ∃ m : Number, restated.threshold = .number m ∧ m.toInt? = request.threshold.signers?
  budget : restated.budget = request.budget

theorem Datum.ListSameKeys.sortParticipants {pubkeys others : Datum} {values : List Datum}
    {participants : List PublicKey} (h : pubkeys.ListSameKeys others)
    (hvalues : pubkeys.items = .ok values)
    (hsorted : QuorumTree.sortParticipants values = .ok participants) :
    ∃ otherValues, others.items = .ok otherValues ∧
      QuorumTree.sortParticipants otherValues = .ok participants := by
  obtain ⟨given, keys, otherValues, otherKeys, hgiven, hkeys, hothers, hotherKeys, hperm⟩ := h
  obtain ⟨denoted, hdenoted, -, hparticipants, -⟩ := sortParticipants_eq_ok_iff.mp hsorted
  -- What values denote is a function of them, so both descriptions of the first list agree.
  have hsame : denoted = keys := by
    rw [hgiven, Except.ok.injEq] at hvalues
    rw [hvalues, Denote, hdenoted, Except.ok.injEq] at hkeys
    exact hkeys
  refine ⟨otherValues, hothers, sortParticipants_eq_of_perm hsorted hotherKeys ?_⟩
  exact hperm.trans (hsame ▸ hparticipants.symm)

namespace Commitment.IsOf

variable {primitive : Primitive} {request : PolicyRequest} {commitment : Commitment}

theorem leafCount_eq_min (h : commitment.IsOf primitive request) :
    commitment.tree.leafCount =
      min (retainedCount commitment.total commitment.budget) commitment.total := by
  rw [h.leafCount_eq, h.combinations, List.length_take, Combination.length_all,
    ← Combination.count_eq_choose, ← h.total]

/-- A verifier makes the aggregate key of any quorum of the policy again, and the number of
leaves. -/
theorem exists_rederived (h : commitment.IsOf primitive request) {verifier : Controller}
    (hprimitive : verifier.primitive = primitive) {restated : PolicyRequest}
    (hrestated : request.IsRestatedBy restated) {members : Datum} {values : List Datum}
    {combination : Combination} {made : Aggregate}
    (hquorum : combination.IsQuorum commitment.threshold.n commitment.threshold.m)
    (hmade : primitive (Combination.keysIn commitment.participants combination) = .ok made)
    (hvalues : members.items = .ok values)
    (hnames : Combination.Names commitment.participants combination values) :
    ∃ leafCount : Number, verifier.rederived restated members = .ok (made.key, leafCount) ∧
      leafCount.toInt? = some (commitment.tree.leafCount : Int) := by
  obtain ⟨given, hgiven, hsorted⟩ := h.participants
  obtain ⟨relisted, hrelisted, hresorted⟩ := hrestated.pubkeys.sortParticipants hgiven hsorted
  obtain ⟨m, hm, hcounts⟩ := hrestated.threshold
  rw [signers?_eq_of_toStated h.stated h.settled] at hcounts
  have hstated : StatedThreshold.of m (.whole commitment.participants.length) =
      .ok ⟨m, .whole commitment.threshold.n⟩ := by
    rw [← h.n_eq]
    exact StatedThreshold.of_eq_ok hcounts
  have hsettled : StatedThreshold.settle ⟨m, .whole commitment.threshold.n⟩ =
      .ok commitment.threshold :=
    StatedThreshold.settle_eq_ok_iff.mpr ⟨hcounts, rfl⟩
  have hresolve :=
    Combination.resolve_of_names h.ascending.nodup hsettled h.n_eq.symm hquorum hnames
  have haggregated : quorumFor verifier.primitive commitment.participants combination =
      .ok ⟨combination, made.key, made.coefficients⟩ := by
    rw [hprimitive, quorumFor_eq_ok_iff (h.n_eq ▸ hquorum.2.2)]
    exact ⟨rfl, hmade⟩
  have hleaves : (withinBudget (Combination.count commitment.threshold) commitment.budget).toInt? =
      some (commitment.tree.leafCount : Int) := by
    have hpositive : 1 ≤ commitment.tree.leafCount := Nat.succ_pos _
    rw [h.leafCount_eq_min] at hpositive ⊢
    rw [← h.total]
    exact toInt?_withinBudget h.covered hpositive
  refine ⟨_, ?_, hleaves⟩
  simp only [Controller.rederived, bind_eq_ok_iff]
  refine ⟨relisted, hrelisted, commitment.participants, hresorted, m, ?_, _, hstated, values,
    hvalues, combination, hresolve, _, haggregated, commitment.threshold, hsettled,
    commitment.budget, ?_, rfl⟩
  · rw [hm]
    rfl
  · rw [hrestated.budget]
    exact h.budget

/-- A committed quorum has a proof as long as the tree is deep that leads to the root. -/
theorem exists_spendProof (h : commitment.IsOf primitive request) {members : Datum}
    {values : List Datum} {combination : Combination}
    (hmem : combination ∈ commitment.combinations) (hvalues : members.items = .ok values)
    (hnames : Combination.Names commitment.participants combination values) :
    ∃ quorum ∈ commitment.quorums, ∃ proof, quorum.combination = combination ∧
      commitment.quorumOf members = .ok quorum ∧ commitment.spendProof members = .ok proof ∧
      proof.steps.length = commitment.tree.depth ∧
      proof.rootFrom (leafHash quorum.key.xOnly) = commitment.tree.root := by
  have hresolve := Combination.resolve_of_names h.ascending.nodup h.settled h.n_eq.symm
    (h.isQuorum_of_mem hmem) hnames
  have hlocated := h.locates hvalues hresolve hmem
  obtain ⟨quorum, hplace, hcombination, hquorum, -, -⟩ := hlocated.quorum
  obtain ⟨proof, hproof, hlength, hroot⟩ :=
    commitment.tree.exists_prove (h.getElem?_leaves hplace)
  refine ⟨quorum, List.mem_of_getElem? hplace, proof, hcombination, hquorum, ?_, hlength, hroot⟩
  rw [Commitment.spendProof, hlocated.index]
  exact hproof

end Commitment.IsOf

/-- Every committed quorum can be spent: however its members are named, it has a proof, and in
either form the proof is accepted for its aggregate key; and every verifier with the same primitive
that is told the policy again accepts it for the members, however they are presented. -/
theorem Controller.commit_complete {controller : Controller} {request : PolicyRequest}
    {ledger after : Ledger} {commitment : Commitment} {dropped : Number}
    (hledger : ledger.IsFaithful controller.primitive)
    (hrun : (controller.commitPruned request).run ledger = (.ok (commitment, dropped), after))
    (hcount : commitment.tree.leafCount ≤ 2 ^ 128)
    {members : Datum} {values : List Datum} {combination : Combination}
    (hmem : combination ∈ commitment.combinations) (hvalues : members.items = .ok values)
    (hnames : Combination.Names commitment.participants combination values) :
    ∃ proof quorum, commitment.spendProof members = .ok proof ∧
      commitment.quorumOf members = .ok quorum ∧ quorum.combination = combination ∧
      ∀ form, form = proof.toDatum ∨ form = .bytes proof.encode →
        verifySpend (.bytes commitment.root.bytes) (.key quorum.key) form
          (.int commitment.tree.leafCount) = true ∧
        ∀ (verifier : Controller) (restated : PolicyRequest) (memory : Ledger) (presented : Datum)
          (presentedValues : List Datum),
          verifier.primitive = controller.primitive → request.IsRestatedBy restated →
          memory.IsFaithful controller.primitive → presented.items = .ok presentedValues →
          Combination.Names commitment.participants combination presentedValues →
          ∃ memory', (verifier.verifySubset restated presented form
            (.bytes commitment.root.bytes)).run memory = (.ok true, memory') := by
  obtain ⟨h, -⟩ := isOf_of_run hledger hrun
  obtain ⟨quorum, hquorum, proof, hcombination, hquorumOf, hproof, hlength, hroot⟩ :=
    h.exists_spendProof hmem hvalues hnames
  refine ⟨proof, quorum, hproof, hquorumOf, hcombination, fun form hform => ⟨?_, ?_⟩⟩
  · exact verifySpend_of_rootFrom hcount hlength hroot hform rfl
  · intro verifier restated memory presented presentedValues hprimitive hrestated hmemory
      hpresented hpresentedNames
    obtain ⟨leafCount, hrederived, hleafCount⟩ :=
      h.exists_rederived hprimitive hrestated (h.isQuorum_of_mem hmem)
        (hcombination ▸ h.quorums quorum hquorum) hpresented hpresentedNames
    rw [← hprimitive] at hmemory
    obtain ⟨memory', hverdict, -⟩ :=
      answers_verifySubset verifier restated presented form _ memory hmemory
    refine ⟨memory', hverdict.trans ?_⟩
    rw [Controller.verdict, hrederived]
    dsimp only
    rw [Commitment.root, verifySpend_of_rootFrom hcount hlength hroot hform hleafCount]

end

namespace TwoOfThree

/-- The policy as a verifier is told it. -/
def restated : PolicyRequest :=
  ⟨.list [.key secondKey, .key thirdKey, .key firstKey], .int 2, .int 2, .null, .null⟩

theorem isRestatedBy_restated : request.IsRestatedBy restated where
  pubkeys := ⟨values, _, _, _, rfl, denote_map_key [thirdKey, firstKey, secondKey], rfl,
    denote_map_key [secondKey, thirdKey, firstKey],
    (List.Perm.swap _ _ _).trans ((List.Perm.swap _ _ _).cons _)⟩
  threshold := ⟨.whole 2, rfl, rfl⟩
  budget := rfl

/-- The quorum of the third and the first participant is proved by its indices, and checked by its
keys. -/
theorem commit_complete_two_of_three :
    ∃ proof quorum memory, commitment.spendProof (.list [.int 2, .int 0]) = .ok proof ∧
      commitment.quorumOf (.list [.int 2, .int 0]) = .ok quorum ∧
      verifySpend (.bytes commitment.root.bytes) (.key quorum.key) (.bytes proof.encode) (.int 2) =
        true ∧
      (controller.verifySubset restated (.list [.key thirdKey, .key firstKey]) proof.toDatum
        (.bytes commitment.root.bytes)).run (Ledger.withCache none) = (.ok true, memory) := by
  obtain ⟨after, hrun⟩ := exists_run
  have hmem : [0, 2] ∈ commitment.combinations := by decide
  have hindices : (Datum.list [.int 2, .int 0]).items =
      .ok ([2, 0].map fun index : Nat => .int index) := rfl
  have hkeys : Combination.Names commitment.participants [0, 2]
      ([thirdKey, firstKey].map .key) :=
    .keys (denote_map_key _) (List.Perm.swap _ _ _)
  obtain ⟨proof, quorum, hproof, hquorum, -, haccepted⟩ :=
    Controller.commit_complete Ledger.isFaithful_withCache_none hrun (by decide) hmem
      hindices (.indices (List.Perm.swap 0 2 []))
  obtain ⟨memory, hchecked⟩ :=
    (haccepted proof.toDatum (.inl rfl)).2 controller restated (Ledger.withCache none)
      (.list [.key thirdKey, .key firstKey]) _ rfl isRestatedBy_restated
      Ledger.isFaithful_withCache_none rfl hkeys
  exact ⟨proof, quorum, memory, hproof, hquorum, (haccepted _ (.inr rfl)).1, hchecked⟩

end TwoOfThree

end QuorumTree
