import QuorumTree.Proofs.Store.Columns
import QuorumTree.Proofs.Store.Loading

/-!
The round trip through the store. A commitment that is saved under a fresh name is found under it,
and whoever has the primitive it was made with loads an equal commitment, with any ceiling and any
memory of earlier aggregates.
-/

namespace QuorumTree

/-- What a database returns for a record: its values as they were given, or in the form in which the
columns keep them. -/
def StoredCommitment.IsReturnedAs (record row : StoredCommitment) : Prop :=
  row = record ∨ record.kept = .ok row

theorem Datum.exists_ofOptionalNumber_kept {given : Option Number}
    (h : ∀ number, given = some number → number.place ≠ .nowhere) :
    ∃ back, (ofOptionalNumber given).keptAsNumber = .ofOptionalNumber back ∧
      Option.Rel Number.IsGivenBackAs given back := by
  cases given with
  | none => exact ⟨none, rfl, .none⟩
  | some number =>
      obtain ⟨back, hkept, hback⟩ := exists_keptAsNumber (h number rfl)
      exact ⟨some back, hkept, .some hback⟩

/-- The numbers of a commitment can be handed to their columns. -/
structure Commitment.FitsColumns (commitment : Commitment) : Prop where
  threshold : (Datum.number commitment.stated.m).checkCell = .ok ()
  budget : (Datum.ofOptionalNumber commitment.budget).checkCell = .ok ()
  dropped : (Datum.int commitment.dropped).checkCell = .ok ()

theorem Commitment.internalKey_of_output {commitment : Commitment} {output : OutputCommitment}
    (h : commitment.output = .ok output) : commitment.internalKey = .key output.internalKey := by
  unfold Commitment.output at h
  split at h
  · next key hkey =>
      rw [OutputCommitment.of, Except.map.eq_def] at h
      split at h <;> cases h
      exact hkey
  · cases h

namespace StoredCommitment

variable {primitive : Primitive} {request : PolicyRequest} {commitment : Commitment}

theorem budget_of (commitment : Commitment) (id : Int) (name : Datum) (output : OutputCommitment) :
    (of id name commitment output).budget = .ofOptionalNumber commitment.budget := by
  cases hbudget : commitment.budget <;> simp only [of, hbudget] <;> rfl

/-- A record holds what is kept of its commitment. -/
theorem holds_of [Machine] (h : commitment.IsOf primitive request) (id : Int) (name : Datum)
    (output : OutputCommitment) :
    (of id name commitment output).Holds commitment commitment.stated.m commitment.budget
      output.internalKey where
  counts := (StatedThreshold.settle_eq_ok_iff.mp h.settled).1
  given := by
    cases hbudget : commitment.budget with
    | none => exact .none
    | some budget => exact .some (.refl (h.place_budget_ne_nowhere hbudget))
  participants := rfl
  threshold := rfl
  budget := budget_of commitment id name output
  dropped := rfl
  merkleRoot := rfl
  internalKey := rfl

/-- So does the row that is kept of it, with its numbers as they are given back. -/
theorem exists_holds_of_kept [Machine] (h : commitment.IsOf primitive request) {id : Int}
    {name : Datum} {output : OutputCommitment} {row : StoredCommitment}
    (hkept : (of id name commitment output).kept = .ok row) :
    ∃ signers budget, row.Holds commitment signers budget output.internalKey := by
  have hrecord := holds_of h id name output
  obtain ⟨signers, hsigners, hback⟩ :=
    Datum.exists_keptAsNumber (Number.place_ne_nowhere_of_toInt? hrecord.counts)
  obtain ⟨budget, hbudget, hgiven⟩ := Datum.exists_ofOptionalNumber_kept
    fun budget hbudget => h.place_budget_ne_nowhere hbudget
  refine ⟨signers, budget, ?_⟩
  rw [eq_of_kept hkept]
  exact {
    counts := hback.counts _ hrecord.counts
    given := hgiven
    participants := rfl
    threshold := hsigners
    budget := by
      rw [← hbudget, ← hrecord.budget]
    dropped := rfl
    merkleRoot := rfl
    internalKey := rfl }

theorem isPlain_map_text {α : Type} (items : List α) (spell : α → String) :
    (Datum.list (items.map fun item => .text (spell item))).isPlain = true := by
  rw [Datum.isPlain]
  induction items with
  | nil => rw [List.map_nil, Datum.arePlain]
  | cons item items ih =>
      rw [List.map_cons, Datum.arePlain, Datum.isPlain, ih]
      rfl

/-- The columns take the record of a commitment. -/
theorem takes_of [Machine] (h : commitment.IsOf primitive request) (id : Int) (name : String)
    (output : OutputCommitment) :
    ∀ item ∈ (of id (.text name) commitment output).written, item.1.Takes item.2 := by
  rintro ⟨column, value⟩ hitem
  obtain ⟨hvalue, hcolumn⟩ := mem_written_iff.mp hitem
  have hrecord := holds_of h id (.text name) output
  cases column with
  | id => exact absurd rfl hcolumn
  | createdAt => cases hvalue
  | threshold =>
      cases hvalue
      obtain ⟨signers, hsigners, -⟩ :=
        Datum.exists_keptAsNumber (Number.place_ne_nowhere_of_toInt? hrecord.counts)
      refine ⟨rfl, .number signers, ?_⟩
      change (Datum.number commitment.stated.m).keptAsNumber.required = _
      rw [hsigners]
      rfl
  | participants | leafHashes =>
      cases hvalue
      exact ⟨if_pos (isPlain_map_text _ _), _, rfl⟩
  | name | budget | dropped | merkleRoot | internalKey | outputKey =>
      cases hvalue
      exact ⟨rfl, _, rfl⟩

/-- Of the values of a record it is the numbers that may not fit. -/
theorem fitsColumns_iff (id : Int) (name : String) (output : OutputCommitment) :
    commitment.FitsColumns ↔
      ∀ item ∈ (of id (.text name) commitment output).written,
        item.1.checkCell item.2 = .ok () := by
  have hbudget := budget_of commitment id (.text name) output
  constructor
  · rintro hfits ⟨column, value⟩ hitem
    obtain ⟨hvalue, hcolumn⟩ := mem_written_iff.mp hitem
    cases column with
    | id => exact absurd rfl hcolumn
    | createdAt => cases hvalue
    | budget =>
        rw [get?, hbudget] at hvalue
        cases hvalue
        exact hfits.budget
    | threshold =>
        cases hvalue
        exact hfits.threshold
    | dropped =>
        cases hvalue
        exact hfits.dropped
    | _ =>
        cases hvalue
        rfl
  · intro hcells
    have hcell (column : Column) {value : Datum}
        (hvalue : (of id (.text name) commitment output).get? column = some value)
        (hcolumn : column ≠ .id) : column.checkCell value = .ok () :=
      hcells (column, value) (mem_written_iff.mpr ⟨hvalue, hcolumn⟩)
    exact ⟨hcell .threshold rfl (by decide), hcell .budget (congrArg some hbudget) (by decide),
      hcell .dropped rfl (by decide)⟩

/-- The record of a commitment whose numbers fit is kept. -/
theorem exists_kept_of [Machine] (h : commitment.IsOf primitive request)
    (hfits : commitment.FitsColumns)
    (id : Int) (name : String) (output : OutputCommitment) :
    ∃ row, (of id (.text name) commitment output).kept = .ok row := by
  obtain ⟨row, hrow⟩ := exists_kept_eq (takes_of h id name output)
  rw [fitsColumns_iff id name output, ← forM_eq_ok_iff] at hfits
  refine ⟨row, ?_⟩
  rw [hrow, hfits]
  rfl

theorem IsReturnedAs.exists_holds [Machine] (h : commitment.IsOf primitive request) {id : Int}
    {name : Datum} {output : OutputCommitment} {row : StoredCommitment}
    (hreturned : (of id name commitment output).IsReturnedAs row) :
    ∃ signers budget, row.Holds commitment signers budget output.internalKey := by
  rcases hreturned with rfl | hkept
  · exact ⟨_, _, holds_of h id name output⟩
  · exact exists_holds_of_kept h hkept

/-- The leaves of a row are no numbers, so they are returned as they were given, and their tree is
the tree of the commitment. -/
theorem IsReturnedAs.loadTree_eq_ok {id : Int} {name : Datum} {output : OutputCommitment}
    {row : StoredCommitment} (hreturned : (of id name commitment output).IsReturnedAs row) :
    row.loadTree = .ok commitment.tree := by
  rcases hreturned with rfl | hkept
  · exact StoredCommitment.loadTree_eq_ok rfl rfl
  · rw [eq_of_kept hkept]
    exact StoredCommitment.loadTree_eq_ok rfl rfl

end StoredCommitment

namespace Store

theorem findData_text (store : Store) (name : String) :
    store.findData (.text name) =
      match store.find? (.text name) with
      | some record => .ok record
      | none => .error .unknownName := rfl

/-- A row under a fresh name is always inserted. -/
theorem insert_eq_ok {store : Store} {name : String} {row : StoredCommitment}
    (hfresh : store.find? (.text name) = none) (hname : row.name = .text name) :
    store.insert row = .ok ⟨store.records ++ [row]⟩ := by
  have hunused : store.records.any (·.name.isSameName (.text name)) = false := by
    rw [find?, List.find?_eq_none] at hfresh
    rw [List.any_eq_false]
    exact hfresh
  rw [insert, hname, hunused]
  rfl

/-- Saving under a fresh name succeeds as soon as the columns take the values, and the row is
found. -/
theorem save_eq_ok {store : Store} {commitment : Commitment} {output : OutputCommitment}
    {name : String} {row : StoredCommitment} (hfresh : store.find? (.text name) = none)
    (houtput : commitment.output = .ok output)
    (hkept : (StoredCommitment.of store.nextId (.text name) commitment output).kept = .ok row) :
    ∃ saved, store.save commitment name =
        .ok (StoredCommitment.of store.nextId (.text name) commitment output, saved) ∧
      saved.find name = .ok row := by
  have hname : row.name = .text name := by
    rw [StoredCommitment.eq_of_kept hkept]
    rfl
  have hinsert := insert_eq_ok hfresh hname
  refine ⟨⟨store.records ++ [row]⟩, ?_, ?_⟩
  · simp only [save, saveData, bind_eq_ok_iff]
    exact ⟨output, houtput, row, hkept, _, hinsert, rfl⟩
  · have hfound : find? ⟨store.records ++ [row]⟩ (.text name) = some row := by
      rw [find?] at hfresh ⊢
      rw [List.find?_append, hfresh, Option.none_or, List.find?_singleton, hname]
      simp [Datum.isSameName]
    rw [find, findData_text, hfound]

/-- The round trip. Saving a commitment whose numbers fit the columns succeeds under every fresh
name, and the name then finds what the database returns of its record. From every store that returns
a record of the commitment under a name, its tree is loaded as it is, and everyone with the
primitive it was made with loads an equal commitment, whatever their ceiling and whatever they
aggregated before. -/
theorem load_saved [Machine] {controller : Controller} {request : PolicyRequest}
    {ledger after : Ledger} {commitment : Commitment} {dropped : Number} {output : OutputCommitment}
    (hledger : ledger.IsFaithful controller.primitive)
    (hrun : (controller.commitPruned request).run ledger = (.ok (commitment, dropped), after))
    (houtput : commitment.output = .ok output) :
    (∀ (store : Store) (name : String),
      store.find? (.text name) = none → commitment.FitsColumns →
      ∃ saved row, store.save commitment name =
          .ok (StoredCommitment.of store.nextId (.text name) commitment output, saved) ∧
        saved.find name = .ok row ∧
        (StoredCommitment.of store.nextId (.text name) commitment output).IsReturnedAs row) ∧
    ∀ (store : Store) (name : String) (id : Int) (row : StoredCommitment),
      store.find name = .ok row →
      (StoredCommitment.of id (.text name) commitment output).IsReturnedAs row →
      row.loadTree = .ok commitment.tree ∧
      ∀ (loader : Controller) (memory : Ledger), loader.primitive = controller.primitive →
        checkWorkers loader.workers = .ok () → memory.IsFaithful controller.primitive →
        ∃ loaded memory', (store.load loader name).run memory = (.ok loaded, memory') ∧
          commitment.IsSame loaded := by
  have hcommitted := ((answers_commitPruned controller request).eq_of_run hledger hrun).1
  have hof := (isOf_of_committed hcommitted).1
  constructor
  · intro store name hfresh hfits
    obtain ⟨row, hkept⟩ := StoredCommitment.exists_kept_of hof hfits store.nextId name output
    obtain ⟨saved, hsave, hfind⟩ := save_eq_ok hfresh houtput hkept
    exact ⟨saved, row, hsave, hfind, .inr hkept⟩
  · intro store name id row hfind hreturned
    refine ⟨hreturned.loadTree_eq_ok, ?_⟩
    intro loader memory hprimitive hworkers hmemory
    obtain ⟨signers, budget, hholds⟩ := hreturned.exists_holds hof
    rw [← hprimitive] at hmemory
    obtain ⟨memory', hload⟩ := hholds.exists_run hcommitted hprimitive hworkers hfind hmemory
    refine ⟨_, memory', hload, ?_⟩
    exact hof.isSame_renewed hholds.counts hholds.given (Commitment.internalKey_of_output houtput)

end Store

namespace TwoOfThree

def output : OutputCommitment where
  internalKey := firstKey
  root := commitment.root
  outputKey :=
    ⟨0x73b61223fcc292e13288a0ccf1b1eea24ce1d96be3be04c9b99026e91e5843f4,
      0x06755902a717e4d0bbf1d24c8de6085a316b22c849ecfbc7ace467c638863b63, by decide +kernel⟩

theorem output_commitment : commitment.output = .ok output := by
  decide +kernel

/-- The commitment as it is written into an empty store. -/
def record : StoredCommitment :=
  .of 1 (.text "vault") commitment output

/-- The commitment is loaded by a controller that would not have let its three quorums pass. -/
theorem load_saved_two_of_three :
    ∃ saved row loaded memory, Store.empty.save commitment "vault" = .ok (record, saved) ∧
      saved.find "vault" = .ok row ∧ row.loadTree = .ok commitment.tree ∧
      (saved.load { controller with ceiling := .int 1 } "vault").run (Ledger.withCache none) =
        (.ok loaded, memory) ∧
      commitment.IsSame loaded := by
  obtain ⟨after, hrun⟩ := exists_run
  obtain ⟨hsave, hload⟩ :=
    Store.load_saved Ledger.isFaithful_withCache_none hrun output_commitment
  obtain ⟨saved, row, hsaved, hfind, hreturned⟩ := hsave .empty "vault" rfl ⟨rfl, rfl, rfl⟩
  obtain ⟨htree, hloads⟩ := hload saved "vault" 1 row hfind hreturned
  obtain ⟨loaded, memory, hloaded, hsame⟩ :=
    hloads { controller with ceiling := .int 1 } (Ledger.withCache none) rfl rfl
      Ledger.isFaithful_withCache_none
  exact ⟨saved, row, loaded, memory, hsaved, hfind, htree, hloaded, hsame⟩

end TwoOfThree

end QuorumTree
