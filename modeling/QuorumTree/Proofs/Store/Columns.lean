import QuorumTree.Proofs.Number
import QuorumTree.Proofs.Traversal
import QuorumTree.Store

/-!
What the columns of a row make of the values written to them. Where a row is kept at all, each of
its columns holds the value that was written, a number in the form in which its column keeps
numbers.
-/

namespace QuorumTree

/-! ### Numbers in columns -/

/-- A floating-point number that is whole stands where the whole number stands. -/
theorem Binary64.place_of_toInt? {value : Binary64} {n : Int} (h : value.toInt? = some n) :
    (Number.real value).place = .among (n * Number.unit) := by
  cases value with
  | finite isNegative significand exponent =>
      simp only [toInt?] at h
      split_ifs at h with hwhole
      cases h
      rw [Number.place, Number.unit, Int.ediv_mul_cancel (Int.dvd_of_emod_eq_zero hwhole)]
  | _ => cases h

/-- A column of numbers gives a number back, unless it is none. -/
theorem Datum.exists_keptAsNumber {given : Number} (h : given.place ≠ .nowhere) :
    ∃ back, (Datum.number given).keptAsNumber = .number back ∧ given.IsGivenBackAs back := by
  cases given with
  | truth value =>
      refine ⟨.whole (if value then 1 else 0), rfl, ?_, fun n hn => hn⟩
      exact Number.same_iff.mpr ⟨h, rfl⟩
  | whole value => exact ⟨.whole value, rfl, .refl h⟩
  | real value =>
      have hnumber : value ≠ .notANumber := by
        rintro rfl
        exact h rfl
      rw [keptAsNumber, ofKeptReal, if_neg hnumber]
      split
      · next n hn =>
          split_ifs
          · refine ⟨.whole n, rfl, Number.same_iff.mpr ⟨h, ?_⟩, fun count hcount => by cases hcount⟩
            rw [Binary64.place_of_toInt? hn, Number.place_whole]
          · exact ⟨.real value, rfl, .refl h⟩
      · exact ⟨.real value, rfl, .refl h⟩

/-! ### Rows -/

/-- What a column makes of a value that it can keep. -/
def Column.made : Column → Datum → Datum
  | id, value | threshold, value | budget, value | dropped, value => value.keptAsNumber
  | name, value | merkleRoot, value | internalKey, value | outputKey, value => value.keptAsText
  | participants, value | leafHashes, value | createdAt, value => value

theorem Datum.eq_of_required {value kept : Datum} (h : value.required = .ok kept) :
    kept = value := by
  cases value <;> cases h <;> rfl

theorem Datum.eq_of_asRowNumber {value kept : Datum} (h : value.asRowNumber = .ok kept) :
    kept = value := by
  unfold asRowNumber at h
  split at h <;> cases h
  rfl

theorem Column.eq_made {column : Column} {value kept : Datum} (h : column.kept value = .ok kept) :
    kept = column.made value := by
  cases column with
  | id => exact Datum.eq_of_asRowNumber h
  | budget | participants | leafHashes =>
      cases h
      rfl
  | _ => exact Datum.eq_of_required h

theorem Column.eq_map_made {values kept : List (Column × Datum)} (h : keepAll values = .ok kept) :
    kept = values.map fun (column, value) => (column, column.made value) := by
  simp only [keepAll, bind_eq_ok_iff] at h
  obtain ⟨-, -, -, -, hmapped⟩ := h
  rw [mapM_eq_ok_iff] at hmapped
  induction hmapped with
  | nil => rfl
  | @cons item answer _ _ hfirst _ ih =>
      obtain ⟨value, hvalue, hanswer⟩ := bind_eq_ok_iff.mp hfirst
      cases hanswer
      rw [List.map_cons, ← ih, Column.eq_made hvalue]

/-- A row that is kept holds in each column what the column makes of its value. -/
theorem StoredCommitment.eq_of_kept {record row : StoredCommitment} (h : record.kept = .ok row) :
    row = { record with
      name := record.name.keptAsText
      threshold := record.threshold.keptAsNumber
      budget := record.budget.keptAsNumber
      dropped := record.dropped.keptAsNumber
      merkleRoot := record.merkleRoot.keptAsText
      internalKey := record.internalKey.keptAsText
      outputKey := record.outputKey.keptAsText } := by
  obtain ⟨values, hvalues, hrow⟩ := bind_eq_ok_iff.mp h
  rw [Column.eq_map_made hvalues] at hrow
  cases hrow
  rfl

/-! ### Writing -/

/-- What is written of a record: the values of all columns but its number. -/
def StoredCommitment.written (record : StoredCommitment) : List (Column × Datum) :=
  (Column.all.filter (· ≠ .id)).filterMap fun column => (record.get? column).map (column, ·)

theorem StoredCommitment.mem_written_iff {record : StoredCommitment} {column : Column}
    {value : Datum} :
    (column, value) ∈ record.written ↔ record.get? column = some value ∧ column ≠ .id := by
  have hall : column ∈ Column.all := by cases column <;> decide
  simp only [written, List.mem_filterMap, List.mem_filter, Option.map_eq_some_iff, Prod.mk.injEq,
    decide_eq_true_eq]
  constructor
  · rintro ⟨_, ⟨-, hcolumn⟩, _, hvalue, rfl, rfl⟩
    exact ⟨hvalue, hcolumn⟩
  · rintro ⟨hvalue, hcolumn⟩
    exact ⟨column, ⟨hall, hcolumn⟩, value, hvalue, rfl, rfl⟩

/-- A column takes a value that is handed over to it: the value has its form, and is kept. -/
structure Column.Takes (column : Column) (value : Datum) : Prop where
  form : column.checkForm value = .ok ()
  kept : ∃ kept, column.kept value = .ok kept

/-- Values that their columns take are kept as soon as they can be handed over. -/
theorem Column.exists_keepAll_eq {values : List (Column × Datum)}
    (h : ∀ item ∈ values, item.1.Takes item.2) :
    ∃ kept, keepAll values =
      (values.forM fun item => item.1.checkCell item.2) >>= fun _ => .ok kept := by
  have hforms : values.forM (fun item => item.1.checkForm item.2) = .ok () :=
    forM_eq_ok_iff.mpr fun item hitem => (h item hitem).form
  have hmapped : ∃ kept, values.mapM (fun item => do
      return (item.1, ← item.1.kept item.2) : _ → Except Fault (Column × Datum)) = .ok kept := by
    apply exists_mapM_eq_ok
    intro item hitem
    obtain ⟨value, hvalue⟩ := (h item hitem).kept
    exact ⟨(item.1, value), bind_eq_ok_iff.mpr ⟨value, hvalue, rfl⟩⟩
  obtain ⟨kept, hkept⟩ := hmapped
  refine ⟨kept, ?_⟩
  change ((values.forM fun item => item.1.checkForm item.2) >>= fun _ =>
    (values.forM fun item => item.1.checkCell item.2) >>= fun _ => values.mapM _) = _
  rw [hforms, hkept]
  rfl

theorem StoredCommitment.exists_kept_eq {record : StoredCommitment}
    (h : ∀ item ∈ record.written, item.1.Takes item.2) :
    ∃ row, record.kept =
      (record.written.forM fun item => item.1.checkCell item.2) >>= fun _ => .ok row := by
  obtain ⟨values, hvalues⟩ := Column.exists_keepAll_eq h
  refine ⟨values.foldl (fun record (column, value) => record.set column value) record, ?_⟩
  change Column.keepAll record.written >>= _ = _
  rw [hvalues, bind_assoc]
  rfl

end QuorumTree
