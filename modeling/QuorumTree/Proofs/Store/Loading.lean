import QuorumTree.Proofs.Commitment.Renewal
import QuorumTree.Proofs.HexText
import QuorumTree.Store

/-!
Loading from the store. A commitment is made anew from the columns of its row, so a row that holds
what is kept of a commitment gives that commitment to everyone with the same primitive. The columns
for the output key and the leaves have no part in it.
-/

namespace QuorumTree

namespace StoredCommitment

/-- The row holds what is kept of a commitment, its numbers as they were given back, and the
internal key `key`. -/
structure Holds (row : StoredCommitment) (commitment : Commitment) (signers : Number)
    (budget : Option Number) (key : PublicKey) : Prop where
  counts : signers.toInt? = some (commitment.threshold.m : Int)
  given : Option.Rel Number.IsGivenBackAs commitment.budget budget
  participants : row.participants = .list (commitment.participants.map (.text ·.hex))
  threshold : row.threshold = .number signers
  budget : row.budget = .ofOptionalNumber budget
  dropped : row.dropped = .int commitment.dropped
  merkleRoot : row.merkleRoot = .text (Hex.encode commitment.root.bytes)
  internalKey : row.internalKey = .text key.hex

variable {row : StoredCommitment} {commitment : Commitment} {primitive : Primitive}
  {request : PolicyRequest}

/-- Everything that the policy of a row is made from. -/
theorem request_eq_ok_iff :
    row.request = .ok request ↔
      ∃ participants key signers stated threshold,
        row.participants.readKeys = .ok participants ∧
        PublicKey.ofHexDatum row.internalKey = .ok key ∧ participants.isEmpty = false ∧
        row.threshold.toNumber = .ok signers ∧
        StatedThreshold.of signers (.whole participants.length) = .ok stated ∧
        stated.settle = .ok threshold ∧
        request = {
          pubkeys := .list (participants.map .key)
          threshold := row.threshold
          budget := row.budget
          internalKey := .key key
          ceiling := .int (Combination.count threshold) } := by
  simp only [StoredCommitment.request, bind_eq_ok_iff]
  constructor
  · rintro ⟨participants, hparticipants, key, hkey, h⟩
    cases hempty : participants.isEmpty with
    | true =>
        rw [hempty] at h
        cases h
    | false =>
        simp only [hempty, Bool.false_eq_true, if_false, bind_eq_ok_iff] at h
        obtain ⟨signers, hsigners, stated, hstated, threshold, hthreshold, hrequest⟩ := h
        cases hrequest
        exact ⟨participants, key, signers, stated, threshold, hparticipants, hkey, hempty, hsigners,
          hstated, hthreshold, rfl⟩
  · rintro ⟨participants, key, signers, stated, threshold, hparticipants, hkey, hempty, hsigners,
      hstated, hthreshold, rfl⟩
    refine ⟨participants, hparticipants, key, hkey, ?_⟩
    simp only [hempty, Bool.false_eq_true, if_false, bind_eq_ok_iff]
    exact ⟨signers, hsigners, stated, hstated, threshold, hthreshold, rfl⟩

theorem agreesOnDropped_iff {dropped : Int} :
    row.agreesOnDropped dropped = true ↔
      ∃ stored, row.dropped = .number stored ∧ (Number.whole dropped).same stored = true := by
  unfold agreesOnDropped
  cases row.dropped <;> simp [Datum.toNumber?]

theorem check_eq_ok_iff {name : String} {answer : Commitment} :
    row.check name commitment = .ok answer ↔
      row.merkleRoot.readHash = .ok commitment.root ∧
        row.agreesOnDropped commitment.dropped = true ∧ commitment = answer := by
  rw [check, bind_eq_ok_iff]
  constructor
  · rintro ⟨root, hroot, hcheck⟩
    split_ifs at hcheck with hdiffers hdropped
    cases hcheck
    simp_all
  · rintro ⟨hroot, hdropped, rfl⟩
    exact ⟨_, hroot, by simp [hdropped]⟩

/-- A row with the leaves of a tree and its root gives the tree. -/
theorem loadTree_eq_ok {tree : MerkleTree}
    (hleaves : row.leafHashes =
      .list (tree.leaves.map fun leaf => .text (Hex.encode leaf.bytes)))
    (hroot : row.merkleRoot = .text (Hex.encode tree.root.bytes)) : row.loadTree = .ok tree := by
  simp only [loadTree, bind_eq_ok_iff, hleaves, hroot]
  refine ⟨_, rfl, tree.leaves, Datum.mapM_readHash _, tree, tree.ofLeaves_leaves, tree.root,
    Datum.readHash_text_encode _, ?_⟩
  rw [if_pos rfl]

end StoredCommitment

/-- A load that succeeds committed to the policy of a row, and the row tells the root and the number
of dropped quorums of what was made. This is so with any memory. -/
theorem Store.run_loadData_eq_ok_iff [Machine] {store : Store} {controller : Controller}
    {name : Datum} {memory after : Ledger} {commitment : Commitment} :
    (store.loadData controller name).run memory = (.ok commitment, after) ↔
      ∃ row request, store.findData name = .ok row ∧ row.request = .ok request ∧
        (controller.commit request).run memory = (.ok commitment, after) ∧
        row.merkleRoot.readHash = .ok commitment.root ∧
        row.agreesOnDropped commitment.dropped = true := by
  simp only [loadData, run_bind_eq_ok_iff, run_lift_eq_ok_iff, StoredCommitment.check_eq_ok_iff]
  constructor
  · rintro ⟨row, _, ⟨hfind, rfl⟩, request, _, ⟨hrequest, rfl⟩, _, _, hrun,
      ⟨hroot, hdropped, rfl⟩, rfl⟩
    exact ⟨row, request, hfind, hrequest, hrun, hroot, hdropped⟩
  · rintro ⟨row, request, hfind, hrequest, hrun, hroot, hdropped⟩
    exact ⟨row, memory, ⟨hfind, rfl⟩, request, memory, ⟨hrequest, rfl⟩, commitment, after, hrun,
      ⟨hroot, hdropped, rfl⟩, rfl⟩

namespace StoredCommitment.Holds

variable [Machine] {row : StoredCommitment} {commitment : Commitment} {primitive : Primitive}
  {request : PolicyRequest} {signers : Number} {budget : Option Number} {key : PublicKey}

theorem request_eq_ok (h : row.Holds commitment signers budget key)
    (hof : commitment.IsOf primitive request) :
    row.request = .ok (commitment.policy signers budget key) := by
  have hstated : StatedThreshold.of signers (.whole commitment.participants.length) =
      .ok ⟨signers, .whole commitment.threshold.n⟩ := by
    rw [← hof.n_eq]
    exact StatedThreshold.of_eq_ok h.counts
  have hsettled : StatedThreshold.settle ⟨signers, .whole commitment.threshold.n⟩ =
      .ok commitment.threshold :=
    StatedThreshold.settle_eq_ok_iff.mpr ⟨h.counts, rfl⟩
  have hnonempty : commitment.participants.isEmpty = false := by
    have hn := hof.n_eq
    have hone := commitment.threshold.one_le
    have hle := commitment.threshold.le
    rw [List.isEmpty_eq_false_iff_exists_mem]
    exact List.exists_mem_of_length_pos (by omega)
  have hkeys : row.participants.readKeys = .ok commitment.participants := by
    rw [h.participants]
    exact Datum.readKeys_hex commitment.participants
  have hkey : PublicKey.ofHexDatum row.internalKey = .ok key := by
    rw [h.internalKey]
    exact key.ofHexDatum_hex
  have hsigners : row.threshold.toNumber = .ok signers := by
    rw [h.threshold]
    rfl
  refine request_eq_ok_iff.mpr ⟨_, key, signers, _, _, hkeys, hkey, hnonempty, hsigners, hstated,
    hsettled, ?_⟩
  rw [h.threshold, h.budget, ← hof.total]
  rfl

/-- Loading a row that holds what is kept of a commitment makes the commitment again. -/
theorem exists_run (h : row.Holds commitment signers budget key) {controller loader : Controller}
    {dropped : Number} (hcommitted : controller.committed request = .ok (commitment, dropped))
    (hprimitive : loader.primitive = controller.primitive)
    (hworkers : checkWorkers loader.workers = .ok ()) {store : Store} {name : Datum}
    (hfind : store.findData name = .ok row) {memory : Ledger}
    (hmemory : memory.IsFaithful loader.primitive) :
    ∃ memory', (store.loadData loader name).run memory =
      (.ok (commitment.renewed signers budget key), memory') := by
  have hrequest := h.request_eq_ok (isOf_of_committed hcommitted).1
  have hagain := Controller.committed_policy hcommitted hprimitive hworkers h.counts h.given key
  have hroot : row.merkleRoot.readHash = .ok (commitment.renewed signers budget key).root := by
    rw [h.merkleRoot, Commitment.root_renewed]
    exact Datum.readHash_text_encode commitment.root
  have hdropped :
      row.agreesOnDropped (commitment.renewed signers budget key).dropped = true := by
    rw [Commitment.dropped_renewed]
    exact agreesOnDropped_iff.mpr ⟨_, h.dropped, decide_eq_true rfl⟩
  obtain ⟨memory', hrun, -⟩ := answers_commitPruned loader _ memory hmemory
  rw [hagain] at hrun
  exact ⟨memory', Store.run_loadData_eq_ok_iff.mpr
    ⟨row, _, hfind, hrequest, run_map hrun, hroot, hdropped⟩⟩

end StoredCommitment.Holds

end QuorumTree
