import Mathlib.Data.List.Nodup
import QuorumTree.Proofs.Commitment.Contents
import QuorumTree.Proofs.Inclusion.Soundness

/-!
Soundness of commitments. As long as no two messages that were hashed collide, a proof that is
accepted for a key is as long as the tree is deep, and the key has the x-coordinate of a committed
aggregate; so a quorum that was pruned cannot be passed off as a committed one.
-/

namespace QuorumTree

/-- What is hashed for the leaves and the branches of a commitment. -/
def Commitment.messages (commitment : Commitment) : List Bytes :=
  commitment.quorums.map (fun quorum => leafMessage quorum.key.xOnly) ++
    commitment.tree.levels.pairs.map branchMessage

/-- What is hashed to check a proof for a key: its leaf, and the branches on the way to the root. -/
def checkedMessages (key : PublicKey) (proof : Datum) : List Bytes :=
  match proof.toProof? with
  | some proof =>
    leafMessage key.xOnly :: (foldedPairs (leafHash key.xOnly) proof.steps).map branchMessage
  | none => []

theorem exists_rootFrom_of_verifySpend {root : Bytes32} {key : PublicKey} {proof leafCount : Datum}
    (h : verifySpend (.bytes root.bytes) (.key key) proof leafCount = true) :
    ∃ read, proof.toProof? = some read ∧ read.rootFrom (leafHash key.xOnly) = root := by
  obtain ⟨read, hread, hroot, -⟩ := exists_rootFrom_of_verifyData h
  exact ⟨read, hread, hroot⟩

/-- Leading from a key's leaf to the root takes as many steps as the tree is deep, and the leaf of a
committed quorum. -/
theorem Commitment.exists_quorum_of_rootFrom {commitment : Commitment}
    (hleaves : commitment.tree.leaves = commitment.quorums.map AggregatedKey.leafHash)
    {key : Bytes32} {steps : List Step}
    (hroot : InclusionProof.rootFrom ⟨steps⟩ (leafHash key) = commitment.root)
    (hmessages : NoCollision (commitment.messages ++
      leafMessage key :: (foldedPairs (leafHash key) steps).map branchMessage)) :
    steps.length = commitment.tree.depth ∧
      ∃ quorum ∈ commitment.quorums, quorum.key.xOnly = key := by
  have hbuilt := commitment.tree.isBuilt
  have hbase : commitment.tree.levels.base = commitment.quorums.map AggregatedKey.leafHash :=
    commitment.tree.base_levels.trans hleaves
  have hpairs : NoBranchCollision (commitment.tree.levels.pairs ++
      foldedPairs (leafHash key) steps) := by
    refine hmessages.branches fun pair hpair => ?_
    rcases List.mem_append.mp hpair with hpair | hpair
    · simp [Commitment.messages, List.mem_map_of_mem hpair]
    · simp [List.mem_map_of_mem hpair]
  rcases Nat.lt_trichotomy steps.length commitment.tree.depth with hshort | heven | hlong
  · obtain ⟨pair, hpair, hhash⟩ := hbuilt.exists_pair_of_length_lt hshort hroot hpairs
    have hsame := hmessages (leafMessage key) (by simp) (branchMessage pair)
      (by simp [Commitment.messages, List.mem_map_of_mem hpair]) hhash.symm
    exact absurd hsame (leafMessage_ne_branchMessage key pair)
  · have hmem := hbuilt.mem_base heven hroot hpairs
    rw [hbase] at hmem
    obtain ⟨quorum, hquorum, hhash⟩ := List.mem_map.mp hmem
    have hsame := hmessages (leafMessage quorum.key.xOnly)
      (by simp [Commitment.messages, List.mem_map_of_mem hquorum]) (leafMessage key) (by simp) hhash
    exact ⟨heven, quorum, hquorum, leafMessage_injective hsame⟩
  · obtain ⟨pair, hpair, hmem⟩ := hbuilt.exists_mem_base_of_lt_length hlong hroot hpairs
    rw [hbase] at hmem
    obtain ⟨quorum, hquorum, hhash⟩ := List.mem_map.mp hmem
    have hsame := hmessages (leafMessage quorum.key.xOnly)
      (by simp [Commitment.messages, List.mem_map_of_mem hquorum]) (branchMessage pair)
      (by simp [List.mem_map_of_mem hpair]) hhash
    exact absurd hsame (leafMessage_ne_branchMessage _ pair)

section

variable [Machine]

/-- Whatever was aggregated before, the leaves of a commitment are those of its quorums. -/
theorem Commitment.leaves_of_run {controller : Controller} {request : PolicyRequest}
    {ledger after : Ledger} {commitment : Commitment} {dropped : Number}
    (hrun : (controller.commitPruned request).run ledger = (.ok (commitment, dropped), after)) :
    commitment.tree.leaves = commitment.quorums.map AggregatedKey.leafHash := by
  simp only [Controller.commitPruned, run_bind_eq_ok_iff, run_lift_eq_ok_iff] at hrun
  -- Ten steps come before the quorums are aggregated, and two after the tree is made.
  obtain ⟨_, _, -, _, _, -, _, _, -, _, _, -, _, _, -, _, _, -, _, _, -, _, _, -, _, _, -, _, _, -,
    quorums, _, -, tree, _, ⟨htree, -⟩, _, _, -, _, _, -, hcommitment⟩ := hrun
  cases hcommitment
  exact MerkleTree.leaves_of_ofLeaves htree

theorem exists_rederived_of_verdict {verifier : Controller} {policy : PolicyRequest}
    {members proof root : Datum} (h : verifier.verdict policy members proof root = .ok true) :
    ∃ key leafCount, verifier.rederived policy members = .ok (key, leafCount) ∧
      verifySpend root (.key key) proof (.number leafCount) = true := by
  unfold Controller.verdict at h
  split at h
  · next key leafCount hrederived => exact ⟨key, leafCount, hrederived, Except.ok.inj h⟩
  · split_ifs at h
    cases h

/-- Nothing but the committed quorums can be spent. A proof of any length, in either form and with
or without a number of leaves, is accepted for a key only when the key has the x-coordinate of a
committed aggregate, and only when the proof is as long as the tree is deep; and no verifier,
whatever it is told of the policy, accepts a proof for members whose aggregate has another
x-coordinate than all committed ones. -/
theorem Controller.commit_sound {controller : Controller} {request : PolicyRequest}
    {ledger after : Ledger} {commitment : Commitment} {dropped : Number}
    (hrun : (controller.commitPruned request).run ledger = (.ok (commitment, dropped), after)) :
    (∀ (key : PublicKey) (proof leafCount : Datum),
      verifySpend (.bytes commitment.root.bytes) (.key key) proof leafCount = true →
      NoCollision (commitment.messages ++ checkedMessages key proof) →
      (∃ read, proof.toProof? = some read ∧ read.steps.length = commitment.tree.depth) ∧
        ∃ quorum ∈ commitment.quorums, quorum.key.xOnly = key.xOnly) ∧
    ∀ (verifier : Controller) (policy : PolicyRequest) (memory : Ledger) (members proof : Datum)
      (values : List Datum) (participants : List PublicKey) (named : List Datum)
      (combination : Combination) (made : Aggregate),
      memory.IsFaithful verifier.primitive → policy.pubkeys.items = .ok values →
      sortParticipants values = .ok participants → members.items = .ok named →
      Combination.resolve participants policy.threshold named = .ok combination →
      verifier.primitive (Combination.keysIn participants combination) = .ok made →
      (∀ quorum ∈ commitment.quorums, quorum.key.xOnly ≠ made.key.xOnly) →
      NoCollision (commitment.messages ++ checkedMessages made.key proof) →
      ((verifier.verifySubset policy members proof (.bytes commitment.root.bytes)).run memory).1 ≠
        .ok true := by
  have hleaves := Commitment.leaves_of_run hrun
  have hspend (key : PublicKey) (proof leafCount : Datum)
      (haccepted : verifySpend (.bytes commitment.root.bytes) (.key key) proof leafCount = true)
      (hmessages : NoCollision (commitment.messages ++ checkedMessages key proof)) :
      (∃ read, proof.toProof? = some read ∧ read.steps.length = commitment.tree.depth) ∧
        ∃ quorum ∈ commitment.quorums, quorum.key.xOnly = key.xOnly := by
    obtain ⟨read, hread, hroot⟩ := exists_rootFrom_of_verifySpend haccepted
    rw [checkedMessages, hread] at hmessages
    obtain ⟨hlength, hquorum⟩ := Commitment.exists_quorum_of_rootFrom hleaves hroot hmessages
    exact ⟨⟨read, hread, hlength⟩, hquorum⟩
  refine ⟨hspend, ?_⟩
  intro verifier policy memory members proof values participants named combination made hmemory
    hvalues hsorted hnamed hresolve hmade hdiffers hmessages haccepted
  obtain ⟨memory', hverdict, -⟩ :=
    answers_verifySubset verifier policy members proof _ memory hmemory
  rw [hverdict] at haccepted
  obtain ⟨key, leafCount, hrederived, hverified⟩ := exists_rederived_of_verdict haccepted
  obtain ⟨values', participants', named', combination', coefficients, hvalues', hsorted', hnamed',
    hresolve', hmade'⟩ := exists_of_rederived hrederived
  -- Every step of the verifier is a function, so it made the aggregate of these members.
  rw [hvalues, Except.ok.injEq] at hvalues'
  subst hvalues'
  rw [hsorted, Except.ok.injEq] at hsorted'
  subst hsorted'
  rw [hnamed, Except.ok.injEq] at hnamed'
  subst hnamed'
  rw [hresolve, Except.ok.injEq] at hresolve'
  subst hresolve'
  rw [hmade, Except.ok.injEq] at hmade'
  subst hmade'
  obtain ⟨-, quorum, hmem, hsame⟩ := hspend _ _ _ hverified hmessages
  exact hdiffers quorum hmem hsame

end

namespace TwoOfThree

/-- The aggregate of the second and the third key, which the budget left out. -/
def secondThird : Aggregate where
  key :=
    ⟨0x237d2b7100a8662f1f203a1fb16a0a5e234a29eca7ed70d39287827aabbd0c54,
      0x25e1b486abcb72aa7981ff4877b5166ed2b811cff11e594f6d846a11d4455f94, by decide +kernel⟩
  coefficients := [0x96cb6b5780e1c9a7cf8622874177030a195db6f03b67e9d4cc206d04a50a3294, 1]

/-- The proof of the second quorum. -/
def proof : Datum :=
  .proof true [(.text "left", .bytes firstSecond.leafHash.bytes)]

theorem noCollision_messages :
    NoCollision (commitment.messages ++
      (checkedMessages firstThird.key proof ++ checkedMessages secondThird.key proof)) := by
  decide +kernel

/-- The proof of the second quorum is accepted for it, and refused for the one that was pruned. -/
theorem commit_sound_two_of_three :
    (∃ quorum ∈ commitment.quorums, quorum.key.xOnly = firstThird.key.xOnly) ∧
      ((controller.verifySubset request (.list [.int 2, .int 1]) proof
        (.bytes commitment.root.bytes)).run (Ledger.withCache none)).1 ≠ .ok true := by
  obtain ⟨after, hrun⟩ := exists_run
  obtain ⟨hspend, hsubset⟩ := Controller.commit_sound hrun
  have hmessages := noCollision_messages
  constructor
  · refine (hspend firstThird.key proof (.int 2) (by decide +kernel) (hmessages.subset ?_)).2
    exact List.append_subset.mpr ⟨by simp, by simp⟩
  · refine hsubset controller request _ _ _ values commitment.participants _ [1, 2] secondThird
      Ledger.isFaithful_withCache_none rfl sortParticipants_values rfl
      (resolve_indices (by decide) (List.Perm.swap 1 2 [])) (by decide +kernel)
      (by decide +kernel) (hmessages.subset ?_)
    exact List.append_subset.mpr ⟨by simp, by simp⟩

end TwoOfThree

end QuorumTree
