import QuorumTree.Proofs.Command.History
import QuorumTree.Proofs.Command.Signers
import QuorumTree.Proofs.Commitment.Completeness

/-!
From a commit to a checked proof. What a commit saved is found by every later run on the database,
which makes the commitment anew from the row; so signers that are committed to get a proof, and what
is printed of it is accepted by a run that knows nothing else.
-/

namespace QuorumTree

/-! ### What a row has room for -/

theorem Datum.length_le_itemBytes (items : List Datum) : 4 * items.length ≤ itemBytes items := by
  induction items with
  | nil => exact Nat.le_refl 0
  | cons item items ih =>
      rw [List.length_cons, itemBytes]
      omega

namespace StoredCommitment

variable {id : Int} {name : Datum} {commitment : Commitment} {output : OutputCommitment}

/-- A row that fits has few participants and leaves. -/
theorem length_le_of_textBytes_le (h : (of id name commitment output).textBytes ≤ maxRowBytes) :
    4 * commitment.participants.length ≤ maxRowBytes ∧
      4 * commitment.tree.leafCount ≤ maxRowBytes := by
  have hparticipants :=
    Datum.length_le_itemBytes (commitment.participants.map fun key => .text key.hex)
  have hleaves :=
    Datum.length_le_itemBytes (commitment.tree.leaves.map fun leaf => .text (Hex.encode leaf.bytes))
  rw [List.length_map] at hparticipants hleaves
  have hlists : Datum.itemBytes (commitment.participants.map fun key => .text key.hex) +
      Datum.itemBytes (commitment.tree.leaves.map fun leaf => .text (Hex.encode leaf.bytes)) ≤
        (of id name commitment output).textBytes := by
    simp only [textBytes, of, Datum.textBytes]
    omega
  rw [MerkleTree.leafCount]
  omega

/-- So its indices and its number of leaves are short enough to be read, and proofs have room for as
many steps as its tree has levels. -/
theorem bounds_of_textBytes_le [Machine] {primitive : Primitive} {request : PolicyRequest}
    (hof : commitment.IsOf primitive request)
    (h : (of id name commitment output).textBytes ≤ maxRowBytes) :
    commitment.threshold.n ≤ 10 ^ Text.maxDigits ∧
      commitment.tree.leafCount < 10 ^ Text.maxDigits ∧
      commitment.tree.leafCount ≤ 2 ^ maxProofDepth := by
  obtain ⟨hparticipants, hleaves⟩ := length_le_of_textBytes_le h
  have hten : maxRowBytes < 10 ^ 10 := by decide
  have hdigits : 10 ^ 10 ≤ 10 ^ Text.maxDigits := Nat.pow_le_pow_right (by decide) (by decide)
  have hproofs : maxRowBytes ≤ 2 ^ maxProofDepth := by decide
  rw [hof.n_eq]
  omega

end StoredCommitment

/-! ### Finding a row again -/

namespace Store

theorem find?_of_prefix {store grown : Store} (h : store.records <+: grown.records) {name : Datum}
    {row : StoredCommitment} (hfind : store.find? name = some row) :
    grown.find? name = some row := by
  obtain ⟨rest, hrest⟩ := h
  rw [find?, ← hrest, List.find?_append]
  rw [find?] at hfind
  rw [hfind, Option.some_or]

end Store

/-- What is found in a table is found there for good. -/
theorem Shelf.find?_after [Machine] {shelf : Shelf} {file : String} {name : Datum}
    {row : StoredCommitment}
    (h : (shelf.table file).find? name = some row) (later : List CommandLine) :
    ((shelf.after later).table file).find? name = some row :=
  Store.find?_of_prefix (prefix_after shelf file later) h

theorem Outcome.Adds.find? [Machine] {outcome : Outcome} {before : Store} {name : String}
    {controller : Controller} {policy : PolicyRequest} {commitment : Commitment}
    {output : OutputCommitment} (h : outcome.Adds before name controller policy commitment output) :
    outcome.store.find? (.text name) = some (.of before.nextId (.text name) commitment output) := by
  have hfresh := h.fresh
  rw [Store.find?] at hfresh
  rw [Store.find?, h.records, List.find?_append, hfresh, Option.none_or, List.find?_singleton]
  simp [StoredCommitment.of, Datum.isSameName]

/-! ### Proving -/

namespace Command

variable [Machine] {desk : Desk} {commitment : Commitment} {name signers : String}

omit [Machine] in
theorem run_orExit_of_isExpected {α : Type} {opening : String} {fault : Fault}
    (h : fault.kind.isExpected = true) :
    (orExit opening (.error fault : Except Fault α)).run desk =
      (.error (.exit (opening ++ fault.message)), desk) := by
  rw [orExit, if_pos h]
  rfl

omit [Machine] in
theorem run_findRecord {row : StoredCommitment} (h : desk.store.find? (.text name) = some row) :
    (findRecord name).run desk = (.ok row, desk) := by
  rw [findRecord, run_get_bind, h]
  rfl

/-- A row that is found is rebuilt, and the proof is for what was made from it. -/
theorem run_runProve {row : StoredCommitment} {cache : Cache} {ledger : Ledger}
    (hfind : desk.store.find? (.text name) = some row) (hcache : desk.settings.newCache = .ok cache)
    (hload : (desk.store.load (controller desk.settings.maxCombinations) name).run
      (.withCache (some cache)) = (.ok commitment, ledger)) :
    (runProve name signers).run desk =
      (printProof commitment signers).run
        { desk with notices := desk.notices ++ ledger.notices } := by
  have hrebuild : (rebuild cache name).run desk =
      (.ok (.ok commitment), { desk with notices := desk.notices ++ ledger.notices }) := by
    rw [rebuild, run_get_bind]
    exact run_perform_eq_ok_iff.mpr ⟨ledger, hload, rfl⟩
  rw [runProve, run_bind_of_ok (run_findRecord hfind), run_newCache_bind, hcache, orFail_ok,
    pure_bind, run_bind_of_ok hrebuild, orExit_ok, pure_bind]

/-- Without a cache nothing is proved, and the run fails with no message. -/
theorem run_runProve_of_newCache_eq_error {row : StoredCommitment} {fault : Fault}
    (hfind : desk.store.find? (.text name) = some row)
    (hcache : desk.settings.newCache = .error fault) :
    (runProve name signers).run desk = (.error (.fault fault), desk) := by
  rw [runProve, run_bind_of_ok (run_findRecord hfind), run_newCache_bind, hcache]
  rfl

theorem run_printProof {indices : List Datum} {quorum : AggregatedKey Nat} {proof : InclusionProof}
    {rank : Nat} (hindices : readSigners signers = .ok indices)
    (hquorum : commitment.quorumOf (.list indices) = .ok quorum)
    (hproof : commitment.spendProof (.list indices) = .ok proof)
    (hrank : commitment.leafIndex (.list indices) = .ok rank) :
    (printProof commitment signers).run desk =
      (.ok (), { desk with
        lines := desk.lines ++ printed (proofReport quorum rank commitment.root proof) }) := by
  simp only [printProof, hindices, orExit_ok, pure_bind, hquorum, hproof, hrank, orFail_ok]
  rfl

theorem run_printProof_refused {indices : List Datum} {fault : Fault}
    (hindices : readSigners signers = .ok indices)
    (hquorum : commitment.quorumOf (.list indices) = .error fault)
    (hexpected : fault.kind.isExpected = true) :
    (printProof commitment signers).run desk =
      (.error (.exit ("Cannot prove signer subset: " ++ fault.message)), desk) := by
  simp only [printProof, hindices, orExit_ok, pure_bind, hquorum]
  exact run_bind_of_error (run_orExit_of_isExpected hexpected)

omit [Machine] in
/-- What is printed of a proof is read back, and accepted with it. -/
theorem run_runVerify {root : Bytes32} {key : PublicKey} {proof : InclusionProof}
    {leafCount : Option Int}
    (h : verifySpend (.bytes root.bytes) (.key key) (.bytes proof.encode)
      ((leafCount.map Datum.int).getD .null) = true) :
    (runVerify (Hex.encode root.bytes) key.hex proof.hex leafCount).run desk =
      (.ok (), { desk with lines := desk.lines ++ ["Proof is valid"] }) := by
  simp only [runVerify, Hex.readHash_encode, key.ofHex_hex, InclusionProof.hex, Hex.read_encode,
    orExit_ok, pure_bind, h]
  rfl

end Command

/-- A proof that is accepted with the number of leaves is accepted without it. -/
theorem verifySpend_null {root key proof : Datum} {count : Int}
    (h : verifySpend root key proof (.int count) = true) :
    verifySpend root key proof .null = true := by
  have hcount : (Datum.int count).toLeafCount? = some (some count) := rfl
  have hnone : Datum.null.toLeafCount? = some none := rfl
  cases key with
  | key key =>
      simp only [verifySpend, verifyData, hcount, hnone] at h ⊢
      split at h
      · next read leaf root found hread hleaf hroot hfound =>
          rw [hread, hleaf, hroot]
          simp only [InclusionProof.verify, Bool.and_eq_true] at h ⊢
          exact ⟨⟨h.1.1, trivial⟩, h.2⟩
      · cases h
  | _ => cases h

/-! ### Signers -/

/-- A text lists signers for a threshold: as many participants as it asks for, all different, each
by its index. -/
structure ListsSigners (t : Threshold) (text : String) (indices : List Nat) : Prop where
  spelled : SpellsIndices text.toList indices
  nodup : indices.Nodup
  length_eq : indices.length = t.m
  lt : ∀ index ∈ indices, index < t.n

namespace ListsSigners

variable {t : Threshold} {text : String} {indices : List Nat}

/-- The signers are a quorum, whose rank is its place among all. -/
theorem exists_quorum (h : ListsSigners t text indices) :
    ∃ combination : Combination, combination.Perm indices ∧ combination.IsQuorum t.n t.m ∧
      (Combination.all t)[combination.rank t.n]? = some combination := by
  obtain ⟨combination, hperm, hquorum⟩ := Combination.exists_isQuorum h.nodup h.length_eq h.lt
  exact ⟨combination, hperm, hquorum, Combination.getElem?_rank hquorum⟩

theorem readSigners_eq_ok (h : ListsSigners t text indices) (hn : t.n ≤ 10 ^ Text.maxDigits) :
    Command.readSigners text = .ok (indices.map fun index : Nat => .int index) := by
  have hne : indices ≠ [] := by
    have hone := t.one_le
    rw [← List.length_pos_iff, h.length_eq]
    omega
  refine Command.readSigners_eq_ok hne (fun index hindex => ?_) h.spelled
  exact Nat.lt_of_lt_of_le (h.lt index hindex) hn

end ListsSigners

/-! ### Loading -/

/-- The commitment that is loaded from a row with the output key of `key`. -/
def Commitment.reloaded (commitment : Commitment) (key : PublicKey) : Commitment :=
  commitment.renewed commitment.stated.m commitment.budget key

section Loading

variable [Machine] {controller : Controller} {request : PolicyRequest} {commitment : Commitment}
  {dropped : Number} {output : OutputCommitment} {id : Int} {name : String}

/-- Everyone loads the commitment of a row. -/
theorem Store.exists_load (hcommitted : controller.committed request = .ok (commitment, dropped))
    {store : Store}
    (hfind : store.find? (.text name) = some (.of id (.text name) commitment output))
    {loader : Controller} (hprimitive : loader.primitive = controller.primitive)
    (hworkers : checkWorkers loader.workers = .ok ()) {memory : Ledger}
    (hmemory : memory.IsFaithful loader.primitive) :
    ∃ after, (store.load loader name).run memory =
      (.ok (commitment.reloaded output.internalKey), after) := by
  have hholds := StoredCommitment.holds_of (isOf_of_committed hcommitted).1 id (.text name) output
  have hfound : store.findData (.text name) = .ok (.of id (.text name) commitment output) := by
    rw [Store.findData_text, hfind]
  exact hholds.exists_run hcommitted hprimitive hworkers hfound hmemory

/-- It is a commitment again, to the policy of the row. -/
theorem Commitment.exists_isOf_reloaded
    (hcommitted : controller.committed request = .ok (commitment, dropped))
    (hworkers : checkWorkers controller.workers = .ok ()) (key : PublicKey) :
    ∃ again, (commitment.reloaded key).IsOf controller.primitive again := by
  have hof := (isOf_of_committed hcommitted).1
  have hgiven : Option.Rel Number.IsGivenBackAs commitment.budget commitment.budget := by
    cases hbudget : commitment.budget with
    | none => exact .none
    | some budget => exact .some (.refl (hof.place_budget_ne_nowhere hbudget))
  exact ⟨_, (isOf_of_committed (Controller.committed_policy hcommitted rfl hworkers
    (StatedThreshold.settle_eq_ok_iff.mp hof.settled).1 hgiven key)).1⟩

end Loading

namespace Commitment.IsOf

variable [Machine] {primitive : Primitive} {request : PolicyRequest} {commitment : Commitment}
  {text : String} {indices : List Nat} {combination : Combination}
  (h : commitment.IsOf primitive request) (hperm : combination.Perm indices)
  (hquorum : combination.IsQuorum commitment.threshold.n commitment.threshold.m)

include h hperm hquorum

/-- Indices in any order name their combination. -/
theorem resolve_indices :
    Combination.resolve commitment.participants (.number commitment.stated.m)
      (indices.map fun index : Nat => .int index) = .ok combination :=
  Combination.resolve_of_names h.ascending.nodup h.settled h.n_eq.symm hquorum
    (.indices hperm.symm)

variable (hlists : ListsSigners commitment.threshold text indices)
  (hn : commitment.threshold.n ≤ 10 ^ Text.maxDigits)

include hlists hn

/-- Signers that are committed to get a proof that leads to the root. -/
theorem exists_printed
    (hrank : combination.rank commitment.threshold.n < commitment.tree.leafCount) :
    ∃ (quorum : AggregatedKey Nat) (proof : InclusionProof), quorum.combination = combination ∧
      proof.steps.length = commitment.tree.depth ∧
      proof.rootFrom (leafHash quorum.key.xOnly) = commitment.tree.root ∧
      ∀ desk : Desk, (Command.printProof commitment text).run desk = (.ok (), { desk with
        lines := desk.lines ++ Command.printed (Command.proofReport quorum
          (combination.rank commitment.threshold.n) commitment.root proof) }) := by
  have hvalues : (Datum.list (indices.map fun index : Nat => .int index)).items = .ok _ := rfl
  have hmem := (h.mem_combinations_iff hquorum).mpr hrank
  obtain ⟨quorum, -, proof, hcombination, hfound, hproof, hlength, hroot⟩ :=
    h.exists_spendProof hmem hvalues (.indices hperm.symm)
  have hindex := (h.locates hvalues (h.resolve_indices hperm hquorum) hmem).index
  exact ⟨quorum, proof, hcombination, hlength, hroot, fun desk =>
    Command.run_printProof (hlists.readSigners_eq_ok hn) hfound hproof hindex⟩

/-- Other signers are refused. -/
theorem printProof_refused
    (hrank : commitment.tree.leafCount ≤ combination.rank commitment.threshold.n) (desk : Desk) :
    ∃ message, (Command.printProof commitment text).run desk = (.error (.exit message), desk) := by
  have hvalues : (Datum.list (indices.map fun index : Nat => .int index)).items = .ok _ := rfl
  have hmem : combination ∉ commitment.combinations := fun hmem =>
    Nat.not_lt.mpr hrank ((h.mem_combinations_iff hquorum).mp hmem)
  have hindex := h.leafIndex_eq hvalues (h.resolve_indices hperm hquorum)
  rw [if_neg hmem] at hindex
  have hrefused : commitment.quorumOf (.list (indices.map fun index : Nat => .int index)) =
      .error (commitment.notCommitted combination (combination.rank commitment.threshold.n)) := by
    simp only [Commitment.quorumOf, hindex, bind, Except.bind]
  exact ⟨_, Command.run_printProof_refused (hlists.readSigners_eq_ok hn) hrefused
    (Fault.isExpected_telling rfl)⟩

end Commitment.IsOf

/-! ### Runs -/

namespace CommandLine

variable [Machine] {call : CommandLine} {shelf : Shelf} {settings : Settings} {file : String}

/-- A run that proves does so for the commitment of the row that it finds. -/
theorem exists_printProof {name signers : String} {controller : Controller}
    {request : PolicyRequest} {commitment : Commitment} {dropped : Number}
    {output : OutputCommitment} {id : Int}
    (hasks : call.Asks shelf settings file (.prove name signers))
    (hvalid : settings.IsValid) (hprimitive : controller.primitive = musig)
    (hcommitted : controller.committed request = .ok (commitment, dropped))
    (hfind : (shelf.table file).find? (.text name) =
      some (.of id (.text name) commitment output)) :
    ∃ desk : Desk, desk.lines = [] ∧
      (∀ after, (Command.printProof (commitment.reloaded output.internalKey) signers).run desk =
          (.ok (), after) →
        (call.run shelf).1.ending = .done ∧ (call.run shelf).1.lines = after.lines) ∧
      ∀ message after,
        (Command.printProof (commitment.reloaded output.internalKey) signers).run desk =
          (.error (.exit message), after) →
        (call.run shelf).1.ending = .stopped message := by
  obtain ⟨isWritable, houtcome, -⟩ := hasks.exists_outcome
  obtain ⟨cache, hnew⟩ := Settings.isValid_iff.mp hvalid
  have hmemory : (Ledger.withCache (some cache)).IsFaithful
      (Command.controller settings.maxCombinations).primitive :=
    Ledger.isFaithful_withCache_create hnew
  obtain ⟨ledger, hload⟩ := Store.exists_load hcommitted hfind hprimitive.symm rfl hmemory
  have hrun : ((Request.prove name signers).run call.columns).run
      ⟨settings, shelf.table file, isWritable, [], []⟩ =
        (Command.printProof (commitment.reloaded output.internalKey) signers).run
          ⟨settings, shelf.table file, isWritable, [], [] ++ ledger.notices⟩ :=
    Command.run_runProve hfind hnew hload
  refine ⟨⟨settings, shelf.table file, isWritable, [], [] ++ ledger.notices⟩, rfl,
    fun after hafter => ?_, fun message after hafter => ?_⟩
  · rw [houtcome, Request.outcome_of_run_eq_ok (hrun.trans hafter)]
    exact ⟨rfl, rfl⟩
  · rw [houtcome, Request.outcome, hrun.trans hafter]

/-- A run that checks what was printed of a proof ends well. -/
theorem ending_of_verifySpend {root : Bytes32} {key : PublicKey} {proof : InclusionProof}
    {leafCount : Option Int}
    (hasks : call.Asks shelf settings file
      (.verify (Hex.encode root.bytes) key.hex proof.hex leafCount))
    (h : verifySpend (.bytes root.bytes) (.key key) (.bytes proof.encode)
      ((leafCount.map Datum.int).getD .null) = true) :
    (call.run shelf).1.ending = .done := by
  obtain ⟨isWritable, houtcome, -⟩ := hasks.exists_outcome
  have hrun : ((Request.verify (Hex.encode root.bytes) key.hex proof.hex leafCount).run
      call.columns).run ⟨settings, shelf.table file, isWritable, [], []⟩ = (.ok (), _) :=
    Command.run_runVerify h
  rw [houtcome, Request.outcome_of_run_eq_ok hrun]

end CommandLine

/-! ### Whatever is run -/

namespace Shelf

variable [Machine]

/-- Whatever was run since, every run that proves for the signers of a text, with a size for its
cache that is not negative, ends well and prints a table of these entries. -/
def Proves (shelf : Shelf) (file name text : String) (entries : List (String × String)) : Prop :=
  ∀ (later : List CommandLine) (prove : CommandLine) (settings : Settings),
    prove.Asks (shelf.after later) settings file (.prove name text) → settings.IsValid →
      (prove.run (shelf.after later)).1.ending = .done ∧
        List.Forall₂ Command.Tells (prove.run (shelf.after later)).1.lines entries

/-- Whatever was run since, every run that proves for the signers of a text, with a size for its
cache that is not negative, ends with an error. -/
def RefusesToProve (shelf : Shelf) (file name text : String) : Prop :=
  ∀ (later : List CommandLine) (prove : CommandLine) (settings : Settings),
    prove.Asks (shelf.after later) settings file (.prove name text) → settings.IsValid →
      ∃ message, (prove.run (shelf.after later)).1.ending = .stopped message

end Shelf

/-- Wherever the printed proof is checked for the printed key against the printed root, with the
number of leaves or without it, the run ends well. -/
def IsVerified [Machine] (root : Bytes32) (key : PublicKey) (proof : InclusionProof)
    (leafCount : Nat) : Prop :=
  ∀ (verify : CommandLine) (shelf : Shelf) (settings : Settings) (file : String)
    (told : Option Int),
    verify.Asks shelf settings file (.verify (Hex.encode root.bytes) key.hex proof.hex told) →
    told = none ∨ told = some (leafCount : Int) →
      (verify.run shelf).1.ending = .done

theorem isVerified_of_verifySpend [Machine] {root : Bytes32} {key : PublicKey}
    {proof : InclusionProof} {leafCount : Nat}
    (h : verifySpend (.bytes root.bytes) (.key key) (.bytes proof.encode) (.int leafCount) = true) :
    IsVerified root key proof leafCount := by
  intro verify shelf settings file told hasks htold
  apply CommandLine.ending_of_verifySpend hasks
  rcases htold with rfl | rfl
  · exact verifySpend_null h
  · exact h

section Saved

variable [Machine] {shelf : Shelf} {file : String} {name text : String} {controller : Controller}
  {request : PolicyRequest} {commitment : Commitment} {dropped : Number} {output : OutputCommitment}
  {id : Int} {indices : List Nat} {combination : Combination}
  (hprimitive : controller.primitive = musig) (hworkers : checkWorkers controller.workers = .ok ())
  (hcommitted : controller.committed request = .ok (commitment, dropped))
  (hfind : (shelf.table file).find? (.text name) = some (.of id (.text name) commitment output))
  (hfits : (StoredCommitment.of id (.text name) commitment output).textBytes ≤ maxRowBytes)
  (hlists : ListsSigners commitment.threshold text indices) (hperm : combination.Perm indices)
  (hquorum : combination.IsQuorum commitment.threshold.n commitment.threshold.m)

include hprimitive hworkers hcommitted hfind hfits hlists hperm hquorum

/-- Signers of a saved commitment whose rank is below its number of leaves get their proof. -/
theorem Shelf.exists_proves
    (hrank : combination.rank commitment.threshold.n < commitment.tree.leafCount) :
    ∃ (quorum : AggregatedKey Nat) (proof : InclusionProof), quorum.combination = combination ∧
      shelf.Proves file name text [
        ("Combination:", String.intercalate "," (combination.map toString)),
        ("Leaf index:", toString (combination.rank commitment.threshold.n)),
        ("Aggregated key:", quorum.key.hex),
        ("Leaf hash:", Hex.encode quorum.leafHash.bytes),
        ("Merkle root:", Hex.encode commitment.root.bytes),
        ("Proof:", proof.hex)] ∧
      IsVerified commitment.root quorum.key proof commitment.tree.leafCount := by
  obtain ⟨hn, -, hcount⟩ :=
    StoredCommitment.bounds_of_textBytes_le (isOf_of_committed hcommitted).1 hfits
  obtain ⟨again, hagain⟩ :=
    Commitment.exists_isOf_reloaded hcommitted hworkers output.internalKey
  obtain ⟨quorum, proof, hcombination, hlength, hroot, hprinted⟩ :=
    hagain.exists_printed hperm hquorum hlists hn hrank
  subst hcombination
  refine ⟨quorum, proof, rfl, ?_, isVerified_of_verifySpend ?_⟩
  · intro later prove settings hprove hvalid
    obtain ⟨desk, hlines, hprints, -⟩ := CommandLine.exists_printProof hprove hvalid hprimitive
      hcommitted (find?_after hfind later)
    obtain ⟨hending, hreport⟩ := hprints _ (hprinted desk)
    refine ⟨hending, ?_⟩
    rw [hreport, hlines, List.nil_append]
    exact Command.tells_proofReport _ _ _ _
  · exact verifySpend_of_rootFrom hcount hlength hroot (.inr rfl) rfl

/-- Signers of a saved commitment whose rank is not below its number of leaves are refused. -/
theorem Shelf.refusesToProve
    (hrank : commitment.tree.leafCount ≤ combination.rank commitment.threshold.n) :
    shelf.RefusesToProve file name text := by
  obtain ⟨hn, -, -⟩ :=
    StoredCommitment.bounds_of_textBytes_le (isOf_of_committed hcommitted).1 hfits
  obtain ⟨again, hagain⟩ :=
    Commitment.exists_isOf_reloaded hcommitted hworkers output.internalKey
  intro later prove settings hprove hvalid
  obtain ⟨desk, -, -, hstops⟩ := CommandLine.exists_printProof hprove hvalid hprimitive hcommitted
    (find?_after hfind later)
  obtain ⟨message, hrefused⟩ := hagain.printProof_refused hperm hquorum hlists hn hrank desk
  exact ⟨message, hstops _ _ hrefused⟩

end Saved

/-- The commands close a circle. Take a commit that ended well, on any shelf, and any signers of its
policy that are listed by their indices; they have a rank among all quorums. When it is below the
number of leaves which the commit printed, whatever is run later, every run that proves for them,
with a size for its cache that is not negative, prints their indices in order, the rank, the root
that the commit printed, a key and a proof; and every run that checks this key and this proof
against the root ends well, with that number of leaves or with none. When it is not, every such run
that proves for them ends with an error. -/
theorem pipeline_closes [Machine] {commit : CommandLine} {shelf : Shelf} {settings : Settings}
    {file name pubkeys : String} {threshold maxCombinations : Int} {budget : Option Int}
    {internalKey : Option String}
    (hasks : commit.Asks shelf settings file
      (.commit name pubkeys threshold budget internalKey maxCombinations))
    (hdone : (commit.run shelf).1.ending = .done) :
    ∃ (keys : List PublicKey) (key : Option PublicKey) (commitment : Commitment) (dropped : Number)
      (output : OutputCommitment),
      Datum.readKeys (.text pubkeys) = .ok keys ∧ internalKey.mapM PublicKey.ofHex = .ok key ∧
      (Command.controller maxCombinations).committed
        (Command.policyRequest keys threshold budget key) = .ok (commitment, dropped) ∧
      commitment.threshold.n = keys.length ∧ (commitment.threshold.m : Int) = threshold ∧
      Command.ReportsCommit (commit.run shelf).1.lines name commitment output ∧
      readInteger (toString commitment.tree.leafCount) = .ok (commitment.tree.leafCount : Int) ∧
      ∀ (text : String) (indices : List Nat), ListsSigners commitment.threshold text indices →
        ∃ (combination : Combination) (rank : Nat), combination.Perm indices ∧
          combination.Pairwise (· < ·) ∧
          (Combination.all commitment.threshold)[rank]? = some combination ∧
          (rank < commitment.tree.leafCount →
            ∃ (quorum : AggregatedKey Nat) (proof : InclusionProof),
              quorum.combination = combination ∧
              (commit.run shelf).2.Proves file name text [
                ("Combination:", String.intercalate "," (combination.map toString)),
                ("Leaf index:", toString rank),
                ("Aggregated key:", quorum.key.hex),
                ("Leaf hash:", Hex.encode quorum.leafHash.bytes),
                ("Merkle root:", Hex.encode commitment.root.bytes),
                ("Proof:", proof.hex)] ∧
              IsVerified commitment.root quorum.key proof commitment.tree.leafCount) ∧
          (commitment.tree.leafCount ≤ rank →
            (commit.run shelf).2.RefusesToProve file name text) := by
  obtain ⟨keys, key, commitment, output, hkeys, hkey, hadds, htable⟩ :=
    CommandLine.exists_adds hasks hdone
  obtain ⟨dropped, hcommitted⟩ := hadds.committed
  have hof := (isOf_of_committed hcommitted).1
  obtain ⟨-, hcount, -⟩ := StoredCommitment.bounds_of_textBytes_le hof hadds.fits
  have hn : commitment.threshold.n = keys.length := by
    rw [hof.n_eq, hof.length_participants]
  have hfind : ((commit.run shelf).2.table file).find? (.text name) = some _ :=
    htable ▸ hadds.find?
  refine ⟨keys, key, commitment, dropped, output, hkeys, hkey, hcommitted, hn, hof.m_eq,
    hadds.reports, readInteger_toString hcount, fun text indices hlists => ?_⟩
  obtain ⟨combination, hperm, hquorum, hplace⟩ := hlists.exists_quorum
  refine ⟨combination, _, hperm, hquorum.2.1, hplace, fun hrank => ?_, fun hrank => ?_⟩
  · exact Shelf.exists_proves rfl rfl hcommitted hfind hadds.fits hlists hperm hquorum hrank
  · exact Shelf.refusesToProve rfl rfl hcommitted hfind hadds.fits hlists hperm hquorum hrank

namespace TwoOfThree

theorem reading_prove_two_zero :
    (callFor ["prove", "--name", "vault", "--signers", " 2 ,,0"]).reading =
      .ok (Settings.default, .run defaultUrl (.prove "vault" " 2 ,,0")) := by
  decide +kernel

theorem reading_prove_two_one :
    (callFor ["prove", "--name", "vault", "--signers", "2,1"]).reading =
      .ok (Settings.default, .run defaultUrl (.prove "vault" "2,1")) := by
  decide +kernel

theorem listsSigners_two_zero : ListsSigners commitment.threshold " 2 ,,0" [2, 0] where
  spelled :=
    have hblank : ∀ c ∈ [' '], Text.isBlank c = true := List.forall_mem_singleton.mpr rfl
    .next (.index [' '] 2 [' '] hblank hblank)
      (.next (.blank [] nofun) (.last (.index [] 0 [] nofun nofun)))
  nodup := by decide
  length_eq := rfl
  lt := by decide

theorem listsSigners_two_one : ListsSigners commitment.threshold "2,1" [2, 1] where
  spelled :=
    .next (.index [] 2 [] nofun nofun) (.last (.index [] 1 [] nofun nofun))
  nodup := by decide
  length_eq := rfl
  lt := by decide

/-- The third participant with the first one gets the proof of the second quorum; with the second
one it is refused, as their quorum is beyond the budget. -/
theorem pipeline_closes_two_of_three :
    let shelf := Shelf.empty.after [commitCall]
    let prove := callFor ["prove", "--name", "vault", "--signers", " 2 ,,0"]
    let refused := callFor ["prove", "--name", "vault", "--signers", "2,1"]
    commitCall.Asks Shelf.empty Settings.default usualFile commitRequest ∧
      (commitCall.run Shelf.empty).1.ending = .done ∧
      (∃ (quorum : AggregatedKey Nat) (proof : InclusionProof), quorum.combination = [0, 2] ∧
        (prove.run shelf).1.ending = .done ∧
        List.Forall₂ Command.Tells (prove.run shelf).1.lines [
          ("Combination:", "0,2"), ("Leaf index:", "1"), ("Aggregated key:", quorum.key.hex),
          ("Leaf hash:", Hex.encode quorum.leafHash.bytes),
          ("Merkle root:", Hex.encode commitment.root.bytes), ("Proof:", proof.hex)] ∧
        IsVerified commitment.root quorum.key proof 2) ∧
      ∃ message, (refused.run shelf).1.ending = .stopped message := by
  obtain ⟨keys, key, made, dropped, output, hkeys, hkey, hcommitted, -, -, -, -, hlisted⟩ :=
    pipeline_closes asks_commitCall ending_commitCall
  rw [readKeys_pubkeys, Except.ok.injEq] at hkeys
  rw [mapM_ofHex_firstKey, Except.ok.injEq] at hkey
  subst hkeys hkey
  rw [committed_policyRequest, Except.ok.injEq, Prod.mk.injEq] at hcommitted
  obtain ⟨rfl, -⟩ := hcommitted
  refine ⟨asks_commitCall, ending_commitCall, ?_, ?_⟩
  · obtain ⟨combination, rank, hperm, hascending, hplace, hcommittedTo, -⟩ :=
      hlisted _ _ listsSigners_two_zero
    obtain rfl : combination = [0, 2] :=
      (hperm.trans (List.Perm.swap 0 2 [])).eq_of_pairwise' hascending (by decide)
    obtain rfl : rank = 1 := Combination.eq_rank_of_getElem? hplace
    obtain ⟨quorum, proof, hcombination, hproved, hverified⟩ := hcommittedTo (by decide)
    obtain ⟨hending, hlines⟩ := hproved [] _ _
      (CommandLine.asks_of_reading reading_prove_two_zero _) Settings.isValid_default
    exact ⟨quorum, proof, hcombination, hending, hlines, hverified⟩
  · obtain ⟨combination, rank, hperm, hascending, hplace, -, hrefused⟩ :=
      hlisted _ _ listsSigners_two_one
    obtain rfl : combination = [1, 2] :=
      (hperm.trans (List.Perm.swap 1 2 [])).eq_of_pairwise' hascending (by decide)
    obtain rfl : rank = 2 := Combination.eq_rank_of_getElem? hplace
    exact hrefused (by decide) [] _ _ (CommandLine.asks_of_reading reading_prove_two_one _)
      Settings.isValid_default

/-- A run that is told to keep a negative number of aggregates. -/
def proveWithNegativeCache : CommandLine :=
  { callFor ["prove", "--name", "vault", "--signers", " 2 ,,0"] with
    env := [("MAST_CACHE_SIZE", "-1")] }

theorem reading_proveWithNegativeCache :
    proveWithNegativeCache.reading =
      .ok (⟨1000000, .whole 1, -1⟩, .run defaultUrl (.prove "vault" " 2 ,,0")) := by
  decide +kernel

/-- The same signers get no proof from a run whose cache would have a negative size, and no message
either. -/
theorem prove_fails_with_negative_cache :
    let shelf := Shelf.empty.after [commitCall]
    (commitCall.run Shelf.empty).1.ending = .done ∧
      ListsSigners commitment.threshold " 2 ,,0" [2, 0] ∧
      (Combination.all commitment.threshold)[1]? = some [0, 2] ∧ 1 < commitment.tree.leafCount ∧
      (proveWithNegativeCache.run shelf).1.ending = .failed (.negativeCacheSize (.whole (-1))) := by
  obtain ⟨_, _, made, output, -, -, hadds, htable⟩ :=
    CommandLine.exists_adds asks_commitCall ending_commitCall
  have hfind : ((Shelf.empty.after [commitCall]).table usualFile).find? (.text "vault") = some _ :=
    htable ▸ hadds.find?
  refine ⟨ending_commitCall, listsSigners_two_zero, by decide +kernel, by decide, ?_⟩
  have hnocache : Settings.newCache ⟨1000000, .whole 1, -1⟩ =
      .error (.negativeCacheSize (.whole (-1))) := by
    decide +kernel
  have hrun : ((Request.prove "vault" " 2 ,,0").run proveWithNegativeCache.columns).run
      ⟨⟨1000000, .whole 1, -1⟩, (Shelf.empty.after [commitCall]).table usualFile, true, [], []⟩ =
        (.error (.fault (.negativeCacheSize (.whole (-1)))), _) :=
    Command.run_runProve_of_newCache_eq_error hfind hnocache
  rw [CommandLine.run_of_reading reading_proveWithNegativeCache, Request.outcome, hrun]

end TwoOfThree

end QuorumTree
