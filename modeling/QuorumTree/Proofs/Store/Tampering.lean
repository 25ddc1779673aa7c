import QuorumTree.Proofs.Store.RoundTrip

/-!
Rows that were overwritten. Loading compares the root and the number of dropped quorums with those
of the row, and nothing else: the output key and the leaves of a row are never looked at, and its
internal key is taken as it stands, so a row with these columns overwritten still loads.
-/

namespace QuorumTree

def Commitment.withInternalKey (commitment : Commitment) (key : PublicKey) : Commitment :=
  { commitment with internalKey := .key key }

def PolicyRequest.withInternalKey (request : PolicyRequest) (key : PublicKey) : PolicyRequest :=
  { request with internalKey := .key key }

/-- An internal key that is given has no part in committing but to be carried along. -/
theorem Controller.commitPruned_withInternalKey [Machine] (controller : Controller)
    (request : PolicyRequest)
    (key given : PublicKey) :
    controller.commitPruned (request.withInternalKey key) =
      (fun made => (made.1.withInternalKey key, made.2)) <$>
        controller.commitPruned (request.withInternalKey given) := by
  simp only [commitPruned, PolicyRequest.withInternalKey, map_bind, internalKeyOf, pure_bind]
  rfl

namespace StoredCommitment

/-- A row whose internal key, output key and leaves are overwritten. -/
def overwritten (row : StoredCommitment) (internalKey outputKey leafHashes : Datum) :
    StoredCommitment :=
  { row with internalKey := internalKey, outputKey := outputKey, leafHashes := leafHashes }

theorem request_overwritten {row : StoredCommitment} {request : PolicyRequest}
    (h : row.request = .ok request) :
    ∃ key, PublicKey.ofHexDatum row.internalKey = .ok key ∧ request.withInternalKey key = request ∧
      ∀ (internalKey outputKey leafHashes : Datum) (other : PublicKey),
        PublicKey.ofHexDatum internalKey = .ok other →
        (row.overwritten internalKey outputKey leafHashes).request =
          .ok (request.withInternalKey other) := by
  obtain ⟨participants, key, signers, stated, threshold, hparticipants, hkey, hnonempty, hsigners,
    hstated, hthreshold, rfl⟩ := request_eq_ok_iff.mp h
  refine ⟨key, hkey, rfl, ?_⟩
  intro internalKey outputKey leafHashes other hother
  exact request_eq_ok_iff.mpr ⟨participants, other, signers, stated, threshold, hparticipants,
    hother, hnonempty, hsigners, hstated, hthreshold, rfl⟩

end StoredCommitment

/-- What a load tells of a row, and what it does not. The commitment that is loaded has the root and
the number of dropped quorums of the row, and the internal key that the row spells. But however the
output key and the leaves of the row are overwritten, and whatever key is written for its internal
key, the row loads as before, with that internal key. -/
theorem Store.load_checks_root_and_dropped_only [Machine] {store : Store} {controller : Controller}
    {name : String} {memory after : Ledger} {commitment : Commitment}
    (hload : (store.load controller name).run memory = (.ok commitment, after)) :
    ∃ row, store.find name = .ok row ∧ row.merkleRoot.readHash = .ok commitment.root ∧
      (∃ stored, row.dropped = .number stored ∧
        (Number.whole commitment.dropped).same stored = true) ∧
      (∃ key, PublicKey.ofHexDatum row.internalKey = .ok key ∧
        commitment.internalKey = .key key) ∧
      ∀ (altered : Store) (internalKey outputKey leafHashes : Datum) (key : PublicKey),
        altered.find name = .ok (row.overwritten internalKey outputKey leafHashes) →
        PublicKey.ofHexDatum internalKey = .ok key →
        (altered.load controller name).run memory =
          (.ok (commitment.withInternalKey key), after) := by
  obtain ⟨row, request, hfind, hrequest, hrun, hroot, hdropped⟩ := run_loadData_eq_ok_iff.mp hload
  obtain ⟨key, hkey, hcarried, hoverwritten⟩ := StoredCommitment.request_overwritten hrequest
  rw [← hcarried] at hrun
  obtain ⟨made, hmade, rfl⟩ := run_map_eq_ok_iff.mp hrun
  refine ⟨row, hfind, hroot, StoredCommitment.agreesOnDropped_iff.mp hdropped, ⟨key, hkey, ?_⟩, ?_⟩
  · rw [controller.commitPruned_withInternalKey request key key] at hmade
    obtain ⟨-, -, rfl⟩ := run_map_eq_ok_iff.mp hmade
    rfl
  · intro altered internalKey outputKey leafHashes other haltered hother
    refine run_loadData_eq_ok_iff.mpr ⟨_, _, haltered,
      hoverwritten internalKey outputKey leafHashes other hother, ?_, hroot, hdropped⟩
    rw [Controller.commit, controller.commitPruned_withInternalKey request other key]
    exact run_map (run_map hmade)

namespace TwoOfThree

/-- The row of the commitment with another internal key written into it. -/
def rekeyed : StoredCommitment :=
  record.overwritten (.text secondKey.hex) record.outputKey record.leafHashes

/-- The output of the commitment over the other internal key. -/
def rekeyedOutput : OutputCommitment where
  internalKey := secondKey
  root := commitment.root
  outputKey :=
    ⟨0xfd312d1daff6dfb955b693921a794e39bb4a376d2390cf5fd173a1385a3430f1,
      0x4cb936bfb1818f6cdc43a081d836f79ca180ce6f430aca41963b9cf1dfc73dee, by decide +kernel⟩

theorem output_rekeyed : (commitment.withInternalKey secondKey).output = .ok rekeyedOutput := by
  decide +kernel

theorem exists_load_record : ∃ memory,
    (Store.load ⟨[record]⟩ controller "vault").run (Ledger.withCache none) =
      (.ok commitment, memory) :=
  (StoredCommitment.holds_of (isOf_of_committed committed_request).1 1 (.text "vault")
    output).exists_run committed_request rfl rfl rfl Ledger.isFaithful_withCache_none

/-- A row is loaded whose internal key was overwritten, and the output key of what is loaded is not
the one that the row still tells. -/
theorem load_checks_root_and_dropped_only_two_of_three :
    ∃ memory, (Store.load ⟨[rekeyed]⟩ controller "vault").run (Ledger.withCache none) =
        (.ok (commitment.withInternalKey secondKey), memory) ∧
      (commitment.withInternalKey secondKey).output = .ok rekeyedOutput ∧
      rekeyed.outputKey = .text output.outputKey.hex ∧
      rekeyedOutput.outputKey ≠ output.outputKey := by
  obtain ⟨memory, hload⟩ := exists_load_record
  obtain ⟨row, hfind, -, -, -, hoverwritten⟩ := Store.load_checks_root_and_dropped_only hload
  have hrow : row = record := by
    cases hfind
    rfl
  subst hrow
  have hrekeyed := hoverwritten ⟨[rekeyed]⟩ (.text secondKey.hex) record.outputKey record.leafHashes
    secondKey rfl secondKey.ofHexDatum_hex
  exact ⟨memory, hrekeyed, output_rekeyed, rfl, by decide +kernel⟩

end TwoOfThree

end QuorumTree
