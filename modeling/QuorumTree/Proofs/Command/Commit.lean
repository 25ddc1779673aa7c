import QuorumTree.Proofs.Command.Effects
import QuorumTree.Proofs.Command.Report
import QuorumTree.Proofs.Store.RoundTrip

/-!
Commits from the command line. A commit that goes through made a commitment to the policy that its
options spell, found its name free, and added one row for it; the row fits into the database, so the
commitment has no more participants and leaves than a row has room for.
-/

namespace QuorumTree

theorem Store.save_eq_ok_iff {store saved : Store} {commitment : Commitment} {name : String}
    {record : StoredCommitment} :
    store.save commitment name = .ok (record, saved) ↔
      ∃ output row, commitment.output = .ok output ∧
        StoredCommitment.of store.nextId (.text name) commitment output = record ∧
        record.kept = .ok row ∧ store.insert row = .ok saved := by
  simp only [save, saveData, bind_eq_ok_iff]
  constructor
  · rintro ⟨output, houtput, row, hrow, _, hsaved, ⟨⟩⟩
    exact ⟨output, row, houtput, rfl, hrow, hsaved⟩
  · rintro ⟨output, row, houtput, rfl, hrow, hsaved⟩
    exact ⟨output, houtput, row, hrow, saved, hsaved, rfl⟩

theorem Store.insert_eq_ok_iff {store saved : Store} {row : StoredCommitment} :
    store.insert row = .ok saved ↔
      store.records.any (·.name.isSameName row.name) = false ∧
        ⟨store.records ++ [row]⟩ = saved := by
  rw [insert]
  split_ifs with htaken
  · constructor
    · intro h
      cases h
    · rintro ⟨hfree, -⟩
      rw [hfree] at htaken
      cases htaken
  · rw [Bool.not_eq_true] at htaken
    rw [Except.ok.injEq, and_iff_right htaken]

/-- The integers of the environment are valid: the size of caches is not negative. Every other one
is valid as it is. -/
def Settings.IsValid (settings : Settings) : Prop :=
  0 ≤ settings.cacheSize

/-- With valid settings caches are made, and with no others. -/
theorem Settings.isValid_iff {settings : Settings} :
    settings.IsValid ↔ ∃ cache, settings.newCache = .ok cache := by
  rw [newCache, Cache.create, Number.whole_lt_whole, IsValid]
  split_ifs with hnegative
  · have hsize : ¬ 0 ≤ settings.cacheSize := by simpa using hnegative
    refine iff_of_false hsize ?_
    rintro ⟨_, h⟩
    cases h
  · have hsize : 0 ≤ settings.cacheSize := by simpa using hnegative
    exact iff_of_true hsize ⟨_, rfl⟩

theorem Settings.isValid_default : default.IsValid := by
  rw [IsValid]
  decide

namespace Command

variable [Machine] {name pubkeys : String} {threshold maxCombinations : Int} {budget : Option Int}
  {internalKey : Option String} {desk after : Desk} {commitment : Commitment}

theorem run_commitTo_eq_ok_iff :
    (commitTo pubkeys threshold budget internalKey maxCombinations).run desk =
        (.ok commitment, after) ↔
      ∃ keys key cache ledger, Datum.readKeys (.text pubkeys) = .ok keys ∧
        internalKey.mapM PublicKey.ofHex = .ok key ∧ desk.settings.newCache = .ok cache ∧
        ((controller maxCombinations).commit (policyRequest keys threshold budget key)).run
          (.withCache (some cache)) = (.ok commitment, ledger) ∧
        { desk with notices := desk.notices ++ ledger.notices } = after := by
  simp only [commitTo, run_bind_eq_ok_iff, run_newCache_bind, run_orExit_eq_ok_iff,
    run_perform_eq_ok_iff]
  constructor
  · rintro ⟨keys, _, ⟨hkeys, rfl⟩, key, _, ⟨hkey, rfl⟩, cache, _, ⟨hcache, rfl⟩, answer, _,
      ⟨ledger, hrun, rfl⟩, rfl, rfl⟩
    exact ⟨keys, key, cache, ledger, hkeys, hkey, hcache, hrun, rfl⟩
  · rintro ⟨keys, key, cache, ledger, hkeys, hkey, hcache, hrun, rfl⟩
    exact ⟨keys, _, ⟨hkeys, rfl⟩, key, _, ⟨hkey, rfl⟩, cache, _, ⟨hcache, rfl⟩, _, _,
      ⟨ledger, hrun, rfl⟩, rfl, rfl⟩

/-- Making a commitment commits to the policy of the options, and only gives notices. -/
theorem exists_committed_of_run_commitTo
    (h : (commitTo pubkeys threshold budget internalKey maxCombinations).run desk =
      (.ok commitment, after)) :
    ∃ keys key dropped notices, Datum.readKeys (.text pubkeys) = .ok keys ∧
      internalKey.mapM PublicKey.ofHex = .ok key ∧ desk.settings.IsValid ∧
      (controller maxCombinations).committed (policyRequest keys threshold budget key) =
        .ok (commitment, dropped) ∧
      { desk with notices := notices } = after := by
  obtain ⟨keys, key, cache, ledger, hkeys, hkey, hnew, hcommit, hafter⟩ :=
    run_commitTo_eq_ok_iff.mp h
  obtain ⟨⟨found, dropped⟩, hpruned, rfl⟩ := run_map_eq_ok_iff.mp hcommit
  exact ⟨keys, key, dropped, _, hkeys, hkey, Settings.isValid_iff.mpr ⟨cache, hnew⟩,
    ((answers_commitPruned _ _).eq_of_run (Ledger.isFaithful_withCache_create hnew) hpruned).1,
    hafter⟩

theorem exists_run_commitTo (desk : Desk) {keys : List PublicKey} {key : Option PublicKey}
    {dropped : Number} (hkeys : Datum.readKeys (.text pubkeys) = .ok keys)
    (hkey : internalKey.mapM PublicKey.ofHex = .ok key) (hvalid : desk.settings.IsValid)
    (hcommitted : (controller maxCombinations).committed
      (policyRequest keys threshold budget key) = .ok (commitment, dropped)) :
    ∃ notices, (commitTo pubkeys threshold budget internalKey maxCombinations).run desk =
      (.ok commitment, { desk with notices := notices }) := by
  obtain ⟨cache, hnew⟩ := Settings.isValid_iff.mp hvalid
  obtain ⟨ledger, hpruned, -⟩ := answers_commitPruned (controller maxCombinations)
    (policyRequest keys threshold budget key) _ (Ledger.isFaithful_withCache_create hnew)
  rw [hcommitted] at hpruned
  exact ⟨_, run_commitTo_eq_ok_iff.mpr
    ⟨keys, key, cache, ledger, hkeys, hkey, hnew, run_map hpruned, rfl⟩⟩

omit [Machine] in
theorem run_saveAs_eq_ok_iff :
    (saveAs name commitment).run desk = (.ok (), after) ↔
      ∃ record store, desk.store.save commitment name = .ok (record, store) ∧
        record.textBytes ≤ maxRowBytes ∧ desk.isWritable = true ∧
        { desk with store := store, notices := desk.notices ++ [.saved name record.id] } =
          after := by
  simp only [saveAs, run_get_bind, run_bind_eq_ok_iff, run_orFail_eq_ok_iff, run_stopIf_eq_ok_iff]
  constructor
  · rintro ⟨⟨record, store⟩, _, ⟨hsave, rfl⟩, _, _, ⟨hnarrow, rfl⟩, _, _, ⟨hwritable, rfl⟩, ⟨⟩⟩
    exact ⟨record, store, hsave, by simpa using hnarrow, by simpa using hwritable, rfl⟩
  · rintro ⟨record, store, hsave, hnarrow, hwritable, rfl⟩
    exact ⟨(record, store), _, ⟨hsave, rfl⟩, (), _, ⟨by simpa using hnarrow, rfl⟩, (), _,
      ⟨by simpa using hwritable, rfl⟩, rfl⟩

theorem run_runCommit_eq_ok_iff :
    (runCommit name pubkeys threshold budget internalKey maxCombinations).run desk =
        (.ok (), after) ↔
      ∃ commitment made saved output, desk.store.find? (.text name) = none ∧
        (commitTo pubkeys threshold budget internalKey maxCombinations).run desk =
          (.ok commitment, made) ∧
        (saveAs name commitment).run made = (.ok (), saved) ∧ commitment.output = .ok output ∧
        { saved with lines := saved.lines ++ printed (commitReport name commitment output) } =
          after := by
  simp only [runCommit, run_get_bind, run_bind_eq_ok_iff, run_orFail_eq_ok_iff,
    run_stopIf_eq_ok_iff, Option.isSome_eq_false_iff, Option.isNone_iff_eq_none]
  constructor
  · rintro ⟨_, _, ⟨hfresh, rfl⟩, commitment, made, hmade, _, saved, hsaved, output, _,
      ⟨houtput, rfl⟩, ⟨⟩⟩
    exact ⟨commitment, made, saved, output, hfresh, hmade, hsaved, houtput, rfl⟩
  · rintro ⟨commitment, made, saved, output, hfresh, hmade, hsaved, houtput, rfl⟩
    exact ⟨(), _, ⟨hfresh, rfl⟩, commitment, made, hmade, (), saved, hsaved, output, _,
      ⟨houtput, rfl⟩, rfl⟩

/-- A commit goes through under a free name when its policy is committed to and its row fits. -/
theorem exists_run_runCommit {keys : List PublicKey} {key : Option PublicKey} {dropped : Number}
    {output : OutputCommitment} (hfresh : desk.store.find? (.text name) = none)
    (hkeys : Datum.readKeys (.text pubkeys) = .ok keys)
    (hkey : internalKey.mapM PublicKey.ofHex = .ok key) (hvalid : desk.settings.IsValid)
    (hcommitted : (controller maxCombinations).committed
      (policyRequest keys threshold budget key) = .ok (commitment, dropped))
    (houtput : commitment.output = .ok output) (hfits : commitment.FitsColumns)
    (hnarrow : (StoredCommitment.of desk.store.nextId (.text name) commitment output).textBytes ≤
      maxRowBytes)
    (hwritable : desk.isWritable = true) :
    ∃ after, (runCommit name pubkeys threshold budget internalKey maxCombinations).run desk =
      (.ok (), after) := by
  obtain ⟨notices, hmade⟩ := exists_run_commitTo desk hkeys hkey hvalid hcommitted
  obtain ⟨row, hkept⟩ := StoredCommitment.exists_kept_of (isOf_of_committed hcommitted).1 hfits
    desk.store.nextId name output
  obtain ⟨saved, hsave, -⟩ := Store.save_eq_ok hfresh houtput hkept
  -- The commitment is saved at the desk that making it left, with the same store.
  have hsaved : (saveAs name commitment).run { desk with notices := notices } = (.ok (), _) :=
    run_saveAs_eq_ok_iff.mpr ⟨_, saved, hsave, hnarrow, hwritable, rfl⟩
  exact ⟨_, run_runCommit_eq_ok_iff.mpr
    ⟨commitment, _, _, output, hfresh, hmade, hsaved, houtput, rfl⟩⟩

end Command

/-! ### The policy of the options -/

section Policy

variable [Machine] {primitive : Primitive} {keys : List PublicKey} {threshold : Int}
  {budget : Option Int} {key : Option PublicKey} {commitment : Commitment}

theorem Commitment.IsOf.stated_eq
    (h : commitment.IsOf primitive (Command.policyRequest keys threshold budget key)) :
    commitment.stated = ⟨.whole threshold, .whole commitment.participants.length⟩ := by
  obtain ⟨_, hnumber, hstated⟩ := bind_eq_ok_iff.mp h.stated
  cases hnumber
  unfold StatedThreshold.of at hstated
  split_ifs at hstated
  exact (Except.ok.inj hstated).symm

theorem Commitment.IsOf.budget_eq
    (h : commitment.IsOf primitive (Command.policyRequest keys threshold budget key)) :
    commitment.budget = budget.map .whole := by
  have hbudget := h.budget
  cases budget <;> exact (Except.ok.inj hbudget).symm

theorem Commitment.IsOf.m_eq
    (h : commitment.IsOf primitive (Command.policyRequest keys threshold budget key)) :
    (commitment.threshold.m : Int) = threshold := by
  obtain ⟨hm, -⟩ := StatedThreshold.settle_eq_ok_iff.mp h.settled
  rw [h.stated_eq] at hm
  exact (Option.some.inj hm).symm

theorem Commitment.IsOf.stated_eq_stated
    (h : commitment.IsOf primitive (Command.policyRequest keys threshold budget key)) :
    commitment.stated = commitment.threshold.stated := by
  rw [h.stated_eq, Threshold.stated, h.m_eq, h.n_eq]

theorem Commitment.IsOf.perm_participants
    (h : commitment.IsOf primitive (Command.policyRequest keys threshold budget key)) :
    commitment.participants.Perm keys := by
  obtain ⟨values, hvalues, hsorted⟩ := h.participants
  cases hvalues
  obtain ⟨found, hfound, -, hperm, -⟩ := sortParticipants_eq_ok_iff.mp hsorted
  obtain rfl : found = keys := Except.ok.inj (hfound.symm.trans (denote_map_key keys))
  exact hperm

theorem Commitment.IsOf.length_participants
    (h : commitment.IsOf primitive (Command.policyRequest keys threshold budget key)) :
    commitment.participants.length = keys.length :=
  h.perm_participants.length_eq

/-- The numbers of options are whole, so they are kept as they are. -/
theorem StoredCommitment.of_eq_of_kept
    (h : commitment.IsOf primitive (Command.policyRequest keys threshold budget key)) {id : Int}
    {name : String} {output : OutputCommitment} {row : StoredCommitment}
    (hkept : (of id (.text name) commitment output).kept = .ok row) :
    row = of id (.text name) commitment output := by
  rw [eq_of_kept hkept]
  simp only [of, h.stated_eq, h.budget_eq]
  cases budget <;> rfl

end Policy

/-! ### Outcomes -/

/-- A commitment was made to a policy. The store is as it was before but for one more row, of this
commitment with its output under a name that was free; the row fits, and it is this commitment that
was printed. -/
structure Outcome.Adds [Machine] (outcome : Outcome) (before : Store) (name : String)
    (controller : Controller) (policy : PolicyRequest) (commitment : Commitment)
    (output : OutputCommitment) : Prop where
  committed : ∃ dropped, controller.committed policy = .ok (commitment, dropped)
  fresh : before.find? (.text name) = none
  tweaked : commitment.output = .ok output
  fits : (StoredCommitment.of before.nextId (.text name) commitment output).textBytes ≤ maxRowBytes
  records : outcome.store.records =
    before.records ++ [.of before.nextId (.text name) commitment output]
  reports : Command.ReportsCommit outcome.lines name commitment output

namespace Request

variable [Machine] {settings : Settings} {columns : Nat} {isWritable : Bool} {store : Store}

theorem outcome_of_run_eq_ok {request : Request} {desk : Desk}
    (h : (request.run columns).run ⟨settings, store, isWritable, [], []⟩ = (.ok (), desk)) :
    request.outcome settings columns isWritable store =
      ⟨.done, desk.lines, desk.notices, desk.store⟩ := by
  rw [outcome, h]

/-- A run that ends well ran to its end, and one that does not leaves the store. -/
theorem outcome_cases (request : Request) :
    (∃ desk, (request.run columns).run ⟨settings, store, isWritable, [], []⟩ = (.ok (), desk)) ∨
      ((request.outcome settings columns isWritable store).ending ≠ .done ∧
        (request.outcome settings columns isWritable store).store = store) := by
  unfold outcome
  split
  · next desk hrun => exact .inl ⟨desk, hrun⟩
  · exact .inr ⟨nofun, rfl⟩
  · exact .inr ⟨nofun, rfl⟩

def isCommit : Request → Bool
  | commit .. => true
  | _ => false

theorem keepsStore_of_isCommit_eq_false {request : Request} (h : request.isCommit = false)
    (columns : Nat) : Command.KeepsStore (request.run columns) := by
  cases request with
  | commit => cases h
  | minThreshold => exact .runMinThreshold _ _
  | prove => exact .runProve _ _
  | inspect => exact .runShow _ _ _
  | verify => exact .runVerify _ _ _ _

/-- Only a commit that ends well changes the store. -/
theorem store_outcome_eq {request : Request}
    (h : (request.outcome settings columns isWritable store).ending = .done →
      request.isCommit = false) :
    (request.outcome settings columns isWritable store).store = store := by
  rcases request.outcome_cases with ⟨desk, hrun⟩ | ⟨-, hstore⟩
  · have houtcome := outcome_of_run_eq_ok hrun
    rw [houtcome] at h ⊢
    have hkeeps := keepsStore_of_isCommit_eq_false (h rfl) columns
      ⟨settings, store, isWritable, [], []⟩
    rwa [hrun] at hkeeps
  · exact hstore

variable {name pubkeys : String} {threshold maxCombinations : Int} {budget : Option Int}
  {internalKey : Option String}

/-- A commit that ends well adds the row of the commitment that it prints, which is one to the
policy that the options spell. -/
theorem exists_adds
    (h : ((commit name pubkeys threshold budget internalKey maxCombinations).outcome settings
      columns isWritable store).ending = .done) :
    ∃ keys key commitment output, Datum.readKeys (.text pubkeys) = .ok keys ∧
      internalKey.mapM PublicKey.ofHex = .ok key ∧
      ((commit name pubkeys threshold budget internalKey maxCombinations).outcome settings
        columns isWritable store).Adds store name (Command.controller maxCombinations)
          (Command.policyRequest keys threshold budget key) commitment output := by
  rcases outcome_cases (commit name pubkeys threshold budget internalKey maxCombinations)
    with ⟨desk, hrun⟩ | ⟨hending, -⟩
  swap
  · exact absurd h hending
  rw [outcome_of_run_eq_ok hrun]
  obtain ⟨commitment, made, saved, output, hfresh, hmade, hsaved, houtput, rfl⟩ :=
    Command.run_runCommit_eq_ok_iff.mp hrun
  obtain ⟨keys, key, dropped, notices, hkeys, hkey, -, hcommitted, rfl⟩ :=
    Command.exists_committed_of_run_commitTo hmade
  obtain ⟨record, after, hsave, hnarrow, -, rfl⟩ := Command.run_saveAs_eq_ok_iff.mp hsaved
  obtain ⟨tweaked, row, htweaked, rfl, hkept, hinsert⟩ := Store.save_eq_ok_iff.mp hsave
  rw [houtput, Except.ok.injEq] at htweaked
  subst htweaked
  obtain rfl := StoredCommitment.of_eq_of_kept (isOf_of_committed hcommitted).1 hkept
  obtain ⟨-, rfl⟩ := Store.insert_eq_ok_iff.mp hinsert
  refine ⟨keys, key, commitment, output, hkeys, hkey,
    ⟨⟨dropped, hcommitted⟩, hfresh, houtput, hnarrow, rfl, ?_⟩⟩
  change Command.ReportsCommit ([] ++ Command.printed _) name commitment output
  rw [List.nil_append]
  exact Command.reportsCommit_commitReport (isOf_of_committed hcommitted).1.stated_eq_stated _ _

end Request

end QuorumTree
