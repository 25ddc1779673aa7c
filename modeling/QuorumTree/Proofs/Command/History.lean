import QuorumTree.Proofs.Command.Calls
import QuorumTree.Proofs.Command.Commit

/-!
The history of a database. Runs only ever add to a table, one row for each commit that ends well,
and no name is given twice.
-/

namespace QuorumTree

namespace CommandLine

variable [Machine] {call : CommandLine} {shelf : Shelf} {file : String}

/-- A run leaves a table as it is, unless it commits to the database of that table and ends well. -/
theorem table_run_eq
    (h : (call.run shelf).1.ending = .done →
      ∀ settings request, call.Asks shelf settings file request → request.isCommit = false) :
    (call.run shelf).2.table file = shelf.table file := by
  by_contra hne
  obtain ⟨settings, request, hasks⟩ := exists_asks_of_table_ne hne
  obtain ⟨isWritable, houtcome, htable⟩ := hasks.exists_outcome
  rw [htable] at hne
  rw [houtcome] at h
  exact hne (Request.store_outcome_eq fun hdone => h hdone settings request hasks)

/-- A commit that ends well adds the row of the commitment that it prints. -/
theorem exists_adds {settings : Settings} {name pubkeys : String} {threshold maxCombinations : Int}
    {budget : Option Int} {internalKey : Option String}
    (hasks : call.Asks shelf settings file
      (.commit name pubkeys threshold budget internalKey maxCombinations))
    (hdone : (call.run shelf).1.ending = .done) :
    ∃ keys key commitment output, Datum.readKeys (.text pubkeys) = .ok keys ∧
      internalKey.mapM PublicKey.ofHex = .ok key ∧
      (call.run shelf).1.Adds (shelf.table file) name (Command.controller maxCombinations)
        (Command.policyRequest keys threshold budget key) commitment output ∧
      (call.run shelf).2.table file = (call.run shelf).1.store := by
  obtain ⟨isWritable, houtcome, htable⟩ := hasks.exists_outcome
  rw [houtcome] at hdone ⊢
  obtain ⟨keys, key, commitment, output, hkeys, hkey, hadds⟩ := Request.exists_adds hdone
  exact ⟨keys, key, commitment, output, hkeys, hkey, hadds, htable⟩

/-- A run leaves a table as it is or adds a row under a name that was free. -/
theorem table_run_cases (call : CommandLine) (shelf : Shelf) (file : String) :
    (call.run shelf).2.table file = shelf.table file ∨
      ∃ (name : String) (commitment : Commitment) (output : OutputCommitment),
        (shelf.table file).find? (.text name) = none ∧
        ((call.run shelf).2.table file).records = (shelf.table file).records ++
          [.of (shelf.table file).nextId (.text name) commitment output] := by
  by_cases hcommit : (call.run shelf).1.ending = .done → ∀ settings request,
      call.Asks shelf settings file request → request.isCommit = false
  · exact .inl (table_run_eq hcommit)
  · push Not at hcommit
    obtain ⟨hdone, settings, request, hasks, hcommit⟩ := hcommit
    cases request with
    | commit name =>
        obtain ⟨_, _, commitment, output, -, -, hadds, htable⟩ := exists_adds hasks hdone
        refine .inr ⟨name, commitment, output, hadds.fresh, ?_⟩
        rw [htable, hadds.records]
    | _ => exact absurd rfl hcommit

end CommandLine

namespace Store

/-- Every row has a text for its name, and no two rows have the same one. -/
structure NamesApart (store : Store) : Prop where
  text : ∀ record ∈ store.records, ∃ name : String, record.name = .text name
  nodup : (store.records.map (·.name)).Nodup

theorem namesApart_empty : empty.NamesApart where
  text _ h := nomatch h
  nodup := List.nodup_nil

/-- A row under a free name keeps the names apart. -/
theorem NamesApart.append {store grown : Store} (h : store.NamesApart) {name : String}
    (hfresh : store.find? (.text name) = none) {record : StoredCommitment}
    (hname : record.name = .text name) (hgrown : grown.records = store.records ++ [record]) :
    grown.NamesApart where
  text := by
    intro other hother
    rw [hgrown] at hother
    rcases List.mem_append.mp hother with hold | hnew
    · exact h.text other hold
    · rw [List.mem_singleton.mp hnew]
      exact ⟨name, hname⟩
  nodup := by
    rw [hgrown, List.map_append, List.nodup_append]
    refine ⟨h.nodup, List.nodup_singleton _, ?_⟩
    intro taken htaken free hfree hsame
    obtain ⟨other, hother, rfl⟩ := List.mem_map.mp htaken
    rw [List.map_singleton, List.mem_singleton, hname] at hfree
    have hdiffers := List.find?_eq_none.mp hfresh other hother
    rw [hsame, hfree] at hdiffers
    exact hdiffers (by simp [Datum.isSameName])

end Store

namespace Shelf

variable [Machine] {shelf : Shelf} {file : String}

omit [Machine] in
theorem table_empty (file : String) : empty.table file = Store.empty := by
  rw [table]
  split_ifs <;> rfl

theorem namesApart_after (h : (shelf.table file).NamesApart) (calls : List CommandLine) :
    ((shelf.after calls).table file).NamesApart := by
  refine after_induction (P := fun shelf => (shelf.table file).NamesApart) ?_ h calls
  intro shelf call h
  rcases call.table_run_cases shelf file with hsame | ⟨name, commitment, output, hfresh, hrecords⟩
  · rwa [hsame]
  · exact h.append hfresh rfl hrecords

/-- Whatever is run, the rows of a table stay where they are. -/
theorem prefix_after (shelf : Shelf) (file : String) (calls : List CommandLine) :
    (shelf.table file).records <+: ((shelf.after calls).table file).records := by
  refine after_induction (P := fun reached =>
    (shelf.table file).records <+: (reached.table file).records) ?_ (List.prefix_refl _) calls
  intro reached call h
  rcases call.table_run_cases reached file with hsame | ⟨name, commitment, output, -, hrecords⟩
  · rwa [hsame]
  · rw [hrecords]
    exact h.trans (List.prefix_append _ _)

end Shelf

namespace TwoOfThree

/-- The keys of the participants, not in order. -/
def pubkeys : String :=
  "020000000000000000000000000000000000000000000000000000000000000003," ++
  "020000000000000000000000000000000000000000000000000000000000000001, " ++
  "020000000000000000000000000000000000000000000000000000000000000002"

def commitRequest : Request :=
  .commit "vault" pubkeys 2 (some 2) (some firstKey.hex) 1000000

/-- A run with an empty environment. -/
def callFor (arguments : List String) : CommandLine :=
  ⟨none, none, [], 80, arguments⟩

def commitCall : CommandLine :=
  callFor ["commit", "--name", "vault", "--pubkeys", pubkeys, "-m", "2", "--prune-budget", "2",
    "--internal-key", firstKey.hex]

theorem reading_commitCall :
    commitCall.reading = .ok (Settings.default, .run defaultUrl commitRequest) := by
  decide +kernel

theorem readKeys_pubkeys :
    Datum.readKeys (.text pubkeys) = .ok [thirdKey, firstKey, secondKey] := by
  decide +kernel

theorem mapM_ofHex_firstKey : (some firstKey.hex).mapM PublicKey.ofHex = .ok (some firstKey) := by
  decide +kernel

theorem committed_policyRequest :
    (Command.controller 1000000).committed
      (Command.policyRequest [thirdKey, firstKey, secondKey] 2 (some 2) (some firstKey)) =
        .ok (commitment, .whole 1) := by
  simp only [Controller.committed, bind_eq_ok_iff]
  exact ⟨values, rfl, commitment.participants, sortParticipants_values, commitment.stated, rfl,
    commitment.threshold, rfl, .whole 1000000, rfl, 3, rfl, commitment.threshold, rfl,
    ⟨[[0, 1], [0, 2]], .whole 3, some (.whole 2), 2⟩, pruneData_request, (), rfl,
    commitment.quorums, mapM_quorumFor, commitment.tree, rfl, .key firstKey, rfl, rfl⟩

theorem textBytes_record : record.textBytes ≤ maxRowBytes := by
  decide +kernel

theorem asks_commitCall : commitCall.Asks Shelf.empty Settings.default usualFile commitRequest :=
  CommandLine.asks_of_reading reading_commitCall Shelf.empty

theorem ending_commitCall : (commitCall.run Shelf.empty).1.ending = .done := by
  obtain ⟨after, hrun⟩ : ∃ after, (commitRequest.run commitCall.columns).run
      ⟨Settings.default, Store.empty, true, [], []⟩ = (.ok (), after) :=
    Command.exists_run_runCommit rfl readKeys_pubkeys mapM_ofHex_firstKey Settings.isValid_default
      committed_policyRequest output_commitment ⟨rfl, rfl, rfl⟩ textBytes_record rfl
  have houtcome : commitRequest.outcome Settings.default commitCall.columns true
      (Shelf.empty.table usualFile) = ⟨.done, after.lines, after.notices, after.store⟩ :=
    Request.outcome_of_run_eq_ok hrun
  rw [CommandLine.run_of_reading reading_commitCall, houtcome]

end TwoOfThree

end QuorumTree
