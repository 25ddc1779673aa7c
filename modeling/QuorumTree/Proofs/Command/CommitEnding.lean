import QuorumTree.Proofs.Command.SignerKeys
import QuorumTree.Proofs.Commitment.Ordinary
import QuorumTree.Proofs.Store.Saving

/-!
How commits from the command line end. A commit adds its row, or ends with a message and adds
nothing; it fails, with no message, when the policy was accepted and what it comes to cannot be
written.
-/

namespace QuorumTree

/-! ### Options -/

theorem Hex.onlyExpected_read (text : String) : OnlyExpected (read text) := by
  refine RefusesOnly.map ?_ pairBytes
  rcases bare_cases text with ⟨bytes, hbare⟩ | hbare | hbare <;> rw [hbare]
  · exact .ok _
  · exact .error rfl
  · exact .error rfl

theorem PublicKey.onlyExpected_ofBytes (bytes : Bytes) : OnlyExpected (ofBytes bytes) :=
  (refusesOnly_ofBytes bytes).mono fun fault hkind => by
    rw [hkind]
    rfl

theorem PublicKey.onlyExpected_ofHex (text : String) : OnlyExpected (ofHex text) :=
  (refusesOnly_ofHex text).mono fun fault hkind => by
    rw [hkind]
    rfl

theorem Datum.onlyExpected_readKeys_text (value : String) :
    OnlyExpected (readKeys (text value)) := by
  refine .bind_of_ok rfl (.mapM fun item hitem => ?_)
  obtain ⟨part, -, rfl⟩ := List.mem_map.mp hitem
  exact .bind (Hex.onlyExpected_read part) PublicKey.onlyExpected_ofBytes

theorem PublicKey.onlyExpected_mapM_ofHex (given : Option String) :
    OnlyExpected (given.mapM ofHex) := by
  cases given with
  | none => exact RefusesOnly.ok none
  | some text => exact .bind (onlyExpected_ofHex text) fun key => RefusesOnly.ok (some key)

theorem Settings.onlyExpected_newCache (settings : Settings) : OnlyExpected settings.newCache := by
  unfold newCache Cache.create
  split_ifs
  · exact .error (Fault.isExpected_telling rfl)
  · exact .ok _

/-! ### Committing to the policy of the options -/

section Policy

variable [Machine] {keys : List PublicKey} {threshold maxCombinations : Int} {budget : Option Int}
  {key : Option PublicKey} {commitment : Commitment} {dropped : Number}

theorem Command.onlyExpected_committed (hfew : keys.length < 2 ^ 63)
    (hholds : Machine.holdsIndices keys.length = true) :
    OnlyExpected ((controller maxCombinations).committed
      (policyRequest keys threshold budget key)) := by
  have hvalues : ∀ value ∈ keys.map Datum.key, value.IsKeyLike := by
    intro value hvalue
    obtain ⟨key, -, rfl⟩ := List.mem_map.mp hvalue
    exact .key key
  have hbudget : (policyRequest keys threshold budget key).budget.toOptionalNumber =
      .ok (budget.map .whole) := by
    cases budget <;> rfl
  rw [← List.length_map (f := Datum.key)] at hfew hholds
  exact Controller.onlyExpected_committed rfl hvalues hfew hholds rfl hbudget rfl rfl
    (refusesKeysOnly_of_musig rfl)

/-- The numbers of a commitment that are written take no more than sixty-three bits. -/
def Commitment.IsNarrow (commitment : Commitment) : Prop :=
  (∀ count : Int, commitment.budget = some (.whole count) → count < 2 ^ 63) ∧
    commitment.dropped < 2 ^ 63

/-- The numbers of a commitment from options fit the columns unless they are too large: none of them
is negative, and the threshold is no more than the participants that were listed. -/
theorem fitsColumns_iff_isNarrow
    (h : (Command.controller maxCombinations).committed
      (Command.policyRequest keys threshold budget key) = .ok (commitment, dropped)) :
    commitment.FitsColumns ↔ commitment.IsNarrow := by
  have hof := (isOf_of_committed h).1
  obtain ⟨hlisted, hnegative⟩ := bounds_of_committed h
  obtain ⟨-, hn, -⟩ := Combination.listable_eq_ok_iff.mp hlisted
  have hdropped := hof.dropped_nonneg
  have hm : (commitment.threshold.m : Int) = threshold := hof.m_eq
  have hle := commitment.threshold.le
  constructor
  · rintro ⟨-, hbudget, hwide⟩
    refine ⟨fun count hcount => ?_, (Datum.checkCell_int_eq_ok_iff.mp hwide).2⟩
    rw [hcount] at hbudget
    exact (Datum.checkCell_int_eq_ok_iff.mp hbudget).2
  · rintro ⟨hbudget, hwide⟩
    refine ⟨?_, ?_, Datum.checkCell_int_eq_ok_iff.mpr ⟨by omega, hwide⟩⟩
    · rw [hof.stated_eq]
      exact Datum.checkCell_int_eq_ok_iff.mpr (by omega)
    · rw [hof.budget_eq] at hbudget hnegative ⊢
      cases budget with
      | none => rfl
      | some count =>
          have hnonneg := hnegative _ rfl
          rw [Number.whole_lt_whole, decide_eq_false_iff_not] at hnonneg
          exact Datum.checkCell_int_eq_ok_iff.mpr ⟨by omega, hbudget count rfl⟩

end Policy

/-! ### Saving -/

/-- How a commitment fails to be saved under a free name. The columns are looked at first, then the
row as a whole, and the database last. -/
inductive SaveFails (store : Store) (isWritable : Bool) (name : String) (commitment : Commitment) :
    Fault → Prop
  /-- There is no output key. -/
  | untweaked {fault : Fault} (hrefused : commitment.output = .error fault) :
      SaveFails store isWritable name commitment fault
  /-- The budget or the number of dropped quorums is too large for its column. -/
  | wide {output : OutputCommitment} (houtput : commitment.output = .ok output)
      (hwide : ¬ commitment.IsNarrow) :
      SaveFails store isWritable name commitment .columnTooWide
  /-- The texts of the row take more than a row may. -/
  | oversized {output : OutputCommitment} (houtput : commitment.output = .ok output)
      (hnarrow : commitment.IsNarrow)
      (hlarge : maxRowBytes <
        (StoredCommitment.of store.nextId (.text name) commitment output).textBytes) :
      SaveFails store isWritable name commitment .columnTooWide
  /-- The database is not to be written to. -/
  | readOnly {output : OutputCommitment} (houtput : commitment.output = .ok output)
      (hnarrow : commitment.IsNarrow)
      (hfits : (StoredCommitment.of store.nextId (.text name) commitment output).textBytes ≤
        maxRowBytes)
      (hreadOnly : isWritable = false) :
      SaveFails store isWritable name commitment .readOnly

namespace Command

variable [Machine] {name pubkeys : String} {threshold maxCombinations : Int} {budget : Option Int}
  {internalKey : Option String} {desk : Desk} {commitment : Commitment} {fault : Fault}

/-- Making the commitment fails only where the policy cannot be listed. -/
theorem failsOn_commitTo_iff :
    FailsOn (commitTo pubkeys threshold budget internalKey maxCombinations) desk fault ↔
      ∃ keys key, Datum.readKeys (.text pubkeys) = .ok keys ∧
        internalKey.mapM PublicKey.ofHex = .ok key ∧ desk.settings.IsValid ∧
        (controller maxCombinations).committed (policyRequest keys threshold budget key) =
          .error fault ∧ fault.kind.isExpected = false := by
  unfold commitTo
  rw [failsOn_orExit_bind_iff (Datum.onlyExpected_readKeys_text pubkeys)]
  simp only [exists_and_left]
  refine exists_congr fun keys => and_congr_right fun _ => ?_
  rw [failsOn_orExit_bind_iff (PublicKey.onlyExpected_mapM_ofHex internalKey)]
  refine exists_congr fun key => and_congr_right fun _ => ?_
  rw [failsOn_newCache_bind_iff, failsOn_orExit_bind_iff (Settings.onlyExpected_newCache _),
    Settings.isValid_iff, ← exists_and_right]
  refine exists_congr fun cache => and_congr_right fun hnew => ?_
  rw [failsOn_perform_bind_iff, failsOn_orExit_iff,
    Controller.run_commit_eq_error_iff (Ledger.isFaithful_withCache_create hnew)]

/-- Saving a commitment that was made under a free name fails in these ways, and in no others. -/
theorem failsOn_saveAs_iff (desk : Desk) {keys : List PublicKey} {key : Option PublicKey}
    {dropped : Number} (hcommitted : (controller maxCombinations).committed
      (policyRequest keys threshold budget key) = .ok (commitment, dropped))
    (hfresh : desk.store.find? (.text name) = none) :
    FailsOn (saveAs name commitment) desk fault ↔
      SaveFails desk.store desk.isWritable name commitment fault := by
  have hof := (isOf_of_committed hcommitted).1
  have hsaves {output : OutputCommitment} (houtput : commitment.output = .ok output)
      (hnarrow : commitment.IsNarrow) : ∃ saved, desk.store.save commitment name =
        .ok (.of desk.store.nextId (.text name) commitment output, saved) := by
    obtain ⟨row, hkept⟩ := StoredCommitment.exists_kept_of hof
      ((fitsColumns_iff_isNarrow hcommitted).mpr hnarrow) desk.store.nextId name output
    obtain ⟨saved, hsave, -⟩ := Store.save_eq_ok hfresh houtput hkept
    exact ⟨saved, hsave⟩
  unfold saveAs
  rw [failsOn_get_bind_iff, failsOn_orFail_bind_iff, Store.save_eq_error_iff hof hfresh,
    fitsColumns_iff_isNarrow hcommitted]
  constructor
  · rintro ((hrefused | ⟨⟨output, houtput⟩, rfl, hwide⟩) | ⟨⟨record, saved⟩, hsave, hrest⟩)
    · exact .untweaked hrefused
    · exact .wide houtput hwide
    · obtain ⟨output, row, houtput, rfl, hkept, -⟩ := Store.save_eq_ok_iff.mp hsave
      have hnarrow := (fitsColumns_iff_isNarrow hcommitted).mp
        (StoredCommitment.fitsColumns_of_kept hof hkept)
      rw [failsOn_stopIf_bind_iff, failsOn_stopIf_bind_iff] at hrest
      rcases hrest with ⟨hlarge, ⟨⟩⟩ | ⟨hfits, ⟨hreadOnly, ⟨⟩⟩ | ⟨-, hnever⟩⟩
      · exact .oversized houtput hnarrow (of_decide_eq_true hlarge)
      · refine .readOnly houtput hnarrow (Nat.not_lt.mp (of_decide_eq_false hfits)) ?_
        rwa [Bool.not_eq_true'] at hreadOnly
      · cases hnever
  · intro h
    cases h with
    | untweaked hrefused => exact .inl (.inl hrefused)
    | wide houtput hwide => exact .inl (.inr ⟨⟨_, houtput⟩, rfl, hwide⟩)
    | oversized houtput hnarrow hlarge =>
        obtain ⟨saved, hsave⟩ := hsaves houtput hnarrow
        refine .inr ⟨_, hsave, ?_⟩
        exact failsOn_stopIf_bind_iff.mpr (.inl ⟨decide_eq_true hlarge, rfl⟩)
    | readOnly houtput hnarrow hfits hreadOnly =>
        obtain ⟨saved, hsave⟩ := hsaves houtput hnarrow
        refine .inr ⟨_, hsave, ?_⟩
        refine failsOn_stopIf_bind_iff.mpr
          (.inr ⟨decide_eq_false (Nat.not_lt.mpr hfits), failsOn_stopIf_bind_iff.mpr (.inl ?_)⟩)
        rw [hreadOnly]
        exact ⟨rfl, rfl⟩

omit [Machine] in
/-- Once a commitment is saved nothing fails any more. -/
theorem failsOn_saveAs_bind_iff {report : OutputCommitment → List String} :
    FailsOn (saveAs name commitment >>= fun _ => orFail commitment.output >>= fun output =>
      print (report output)) desk fault ↔ FailsOn (saveAs name commitment) desk fault := by
  rw [failsOn_bind_iff, or_iff_left_iff_imp]
  rintro ⟨_, saved, hsaved, hreport⟩
  obtain ⟨record, store, hsave, -, -, -⟩ := run_saveAs_eq_ok_iff.mp hsaved
  obtain ⟨output, -, houtput, -⟩ := Store.save_eq_ok_iff.mp hsave
  rw [houtput] at hreport
  cases hreport

/-- Nothing is wrong with what a commit is given besides its policy: its name is free, its keys are
read, and its settings are valid. -/
structure CommitReads (settings : Settings) (store : Store) (name pubkeys : String)
    (internalKey : Option String) (keys : List PublicKey) (key : Option PublicKey) : Prop where
  fresh : store.find? (.text name) = none
  keys : Datum.readKeys (.text pubkeys) = .ok keys
  internalKey : internalKey.mapM PublicKey.ofHex = .ok key
  valid : settings.IsValid

/-- How a commit fails: its participants are too many to be listed, or the commitment that was made
cannot be saved. -/
inductive CommitFails (store : Store) (isWritable : Bool) (name : String) (keys : List PublicKey)
    (threshold : Int) (budget : Option Int) (key : Option PublicKey) (maxCombinations : Int)
    (fault : Fault) : Prop
  | unlisted (hmany : 2 ^ 63 ≤ keys.length ∨ Machine.holdsIndices keys.length = false)
      (hrefused : (controller maxCombinations).committed
        (policyRequest keys threshold budget key) = .error fault)
      (hunexpected : fault.kind.isExpected = false)
  | unsaved {commitment : Commitment} {dropped : Number}
      (hcommitted : (controller maxCombinations).committed
        (policyRequest keys threshold budget key) = .ok (commitment, dropped))
      (hfails : SaveFails store isWritable name commitment fault)

theorem failsOn_runCommit_iff :
    FailsOn (runCommit name pubkeys threshold budget internalKey maxCombinations) desk fault ↔
      ∃ keys key, CommitReads desk.settings desk.store name pubkeys internalKey keys key ∧
        CommitFails desk.store desk.isWritable name keys threshold budget key maxCombinations
          fault := by
  unfold runCommit
  rw [failsOn_get_bind_iff, failsOn_stopIf_bind_iff, failsOn_bind_iff, failsOn_commitTo_iff]
  simp only [failsOn_saveAs_bind_iff, Option.isSome_eq_false_iff, Option.isNone_iff_eq_none]
  constructor
  · rintro (⟨-, hmessage⟩ | ⟨hfresh, ⟨keys, key, hkeys, hkey, hvalid, hrefused, hunexpected⟩ |
      ⟨commitment, made, hmade, hfails⟩⟩)
    · cases hmessage
    · refine ⟨keys, key, ⟨hfresh, hkeys, hkey, hvalid⟩, .unlisted ?_ hrefused hunexpected⟩
      by_contra hlisted
      rw [not_or, Nat.not_le, Bool.not_eq_false] at hlisted
      exact (onlyExpected_committed hlisted.1 hlisted.2).absurd hunexpected hrefused
    · obtain ⟨keys, key, dropped, notices, hkeys, hkey, hvalid, hcommitted, rfl⟩ :=
        exists_committed_of_run_commitTo hmade
      refine ⟨keys, key, ⟨hfresh, hkeys, hkey, hvalid⟩, .unsaved hcommitted ?_⟩
      exact (failsOn_saveAs_iff { desk with notices := notices } hcommitted hfresh).mp hfails
  · rintro ⟨keys, key, hreads, hfails⟩
    refine .inr ⟨hreads.fresh, ?_⟩
    cases hfails with
    | unlisted _ hrefused hunexpected =>
        exact .inl ⟨keys, key, hreads.keys, hreads.internalKey, hreads.valid, hrefused, hunexpected⟩
    | unsaved hcommitted hfails =>
        obtain ⟨notices, hmade⟩ :=
          exists_run_commitTo desk hreads.keys hreads.internalKey hreads.valid hcommitted
        refine .inr ⟨_, _, hmade, ?_⟩
        exact (failsOn_saveAs_iff { desk with notices := notices } hcommitted
          hreads.fresh).mpr hfails

end Command

/-! ### Outcomes -/

theorem Request.failed_outcome_iff [Machine] {request : Request} {settings : Settings}
    {columns : Nat} {isWritable : Bool} {store : Store} {fault : Fault} :
    (request.outcome settings columns isWritable store).ending = .failed fault ↔
      Command.FailsOn (request.run columns) ⟨settings, store, isWritable, [], []⟩ fault := by
  unfold outcome Command.FailsOn
  split
  · next hrun =>
      rw [hrun]
      exact iff_of_false nofun nofun
  · next hrun =>
      rw [hrun]
      exact iff_of_false nofun nofun
  · next hrun =>
      rw [hrun, Ending.failed.injEq, Except.error.injEq, Stop.fault.injEq]

/-- Everyone who aggregates as commits do loads a commitment under the name, whatever was aggregated
before. -/
def Store.Loads [Machine] (store : Store) (name : String) : Prop :=
  ∀ (loader : Controller) (memory : Ledger), loader.primitive = musig →
    checkWorkers loader.workers = .ok () → memory.IsFaithful musig →
    ∃ loaded after, (store.load loader name).run memory = (.ok loaded, after)

theorem Outcome.Adds.loads [Machine] {outcome : Outcome} {before : Store} {name : String}
    {ceiling : Int} {policy : PolicyRequest} {commitment : Commitment} {output : OutputCommitment}
    (h : outcome.Adds before name (Command.controller ceiling) policy commitment output) :
    outcome.store.Loads name := by
  intro loader memory hprimitive hworkers hmemory
  obtain ⟨dropped, hcommitted⟩ := h.committed
  rw [← hprimitive] at hmemory
  obtain ⟨after, hload⟩ := Store.exists_load hcommitted h.find? hprimitive hworkers hmemory
  exact ⟨_, after, hload⟩

/-- What a commit leaves on a store: the row that it added, or the store as it was. -/
theorem Request.commit_outcome_cases [Machine] {settings : Settings} {columns : Nat}
    {isWritable : Bool} {store : Store} {name pubkeys : String} {threshold maxCombinations : Int}
    {budget : Option Int} {internalKey : Option String} {outcome : Outcome}
    (h : (commit name pubkeys threshold budget internalKey maxCombinations).outcome settings columns
      isWritable store = outcome) :
    (outcome.ending = .done ∧ ∃ row, outcome.store.records = store.records ++ [row] ∧
        row.name = .text name ∧ outcome.store.Loads name) ∨
      ((∃ message, outcome.ending = .stopped message) ∨ ∃ fault, outcome.ending = .failed fault) ∧
        outcome.store = store := by
  by_cases hdone : outcome.ending = .done
  · subst h
    obtain ⟨keys, key, commitment, output, -, -, hadds⟩ := exists_adds hdone
    exact .inl ⟨hdone, _, hadds.records, rfl, hadds.loads⟩
  · right
    unfold Request.outcome at h
    split at h <;> subst h
    · exact absurd rfl hdone
    · exact ⟨.inl ⟨_, rfl⟩, rfl⟩
    · exact ⟨.inr ⟨_, rfl⟩, rfl⟩

/-- Putting back what was there changes no table. -/
theorem Shelf.table_put_get (shelf : Shelf) (database : Database) (file : String) :
    (shelf.put database (shelf.get database)).table file = shelf.table file := by
  cases database with
  | memory => rfl
  | file name access =>
      rw [table_put_file]
      split_ifs with hfile
      · rw [hfile]
        rfl
      · rfl

namespace OneOfTwo

open TwoOfThree (callFor firstKey)

/-- The least budget that a column does not hold. -/
def wideBudget : Int := 2 ^ 63

def wideCall : CommandLine :=
  callFor ["commit", "--name", "pair", "--pubkeys", pubkeys, "-m", "1", "--internal-key",
    firstKey.hex, "--prune-budget", "9223372036854775808"]

theorem reading_wideCall :
    wideCall.reading = .ok (Settings.default, .run defaultUrl
      (.commit "pair" pubkeys 1 (some wideBudget) (some firstKey.hex) 1000000)) := by
  decide +kernel

theorem committed_wideBudget :
    (Command.controller 1000000).committed
      (Command.policyRequest [lastKey, firstKey] 1 (some wideBudget) (some firstKey)) =
        .ok ({ commitment with budget := some (.whole wideBudget) }, .whole 0) := by
  simp only [Controller.committed, bind_eq_ok_iff]
  exact ⟨_, rfl, _, sortParticipants_keys, commitment.stated, rfl, commitment.threshold, rfl,
    .whole 1000000, rfl, 2, rfl, commitment.threshold, rfl,
    ⟨[[0], [1]], .whole 2, some (.whole wideBudget), 2⟩,
    (pruneData_eq_ok_iff (Source.lists_quorums _)).mpr ⟨_, none, rfl, rfl, rfl, rfl⟩, (), rfl,
    commitment.quorums, mapM_quorumFor, commitment.tree, rfl, .key firstKey, rfl, rfl⟩

end OneOfTwo

end QuorumTree
