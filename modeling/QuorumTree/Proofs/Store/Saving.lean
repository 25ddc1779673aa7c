import QuorumTree.Proofs.Refusal
import QuorumTree.Proofs.Store.RoundTrip

/-!
What saving is refused for. A commitment is not saved under a free name when it has no output, or
when one of its numbers does not fit its column.
-/

namespace QuorumTree

/-- A whole number fits a column in sixty-four bits with a sign. -/
theorem Datum.checkCell_int_eq_ok_iff {n : Int} :
    (Datum.int n).checkCell = .ok () ↔ -(2 ^ 63) ≤ n ∧ n < 2 ^ 63 := by
  change (if fitsColumn n then _ else _) = _ ↔ _
  have hcolumn : fitsColumn n = true ↔ -(2 ^ 63) ≤ n ∧ n < 2 ^ 63 := by
    rw [fitsColumn, Bool.and_eq_true, decide_eq_true_eq, decide_eq_true_eq]
  split_ifs with hfits
  · exact iff_of_true rfl (hcolumn.mp hfits)
  · exact iff_of_false nofun (mt hcolumn.mpr hfits)

theorem Datum.refusesOnly_checkCell_number (number : Number) :
    RefusesOnly (· = .columnTooWide) (Datum.number number).checkCell := by
  cases number with
  | whole n =>
      change RefusesOnly _ (if fitsColumn n then _ else _)
      split_ifs
      · exact .ok _
      · exact .error rfl
  | _ => exact .ok _

namespace StoredCommitment

variable {primitive : Primitive} {request : PolicyRequest} {commitment : Commitment}

/-- A value of a record can only be too wide to be handed over. -/
theorem refusesOnly_checkCell_of (commitment : Commitment) (id : Int) (name : String)
    (output : OutputCommitment) :
    ∀ item ∈ (of id (.text name) commitment output).written,
      RefusesOnly (· = .columnTooWide) (item.1.checkCell item.2) := by
  rintro ⟨column, value⟩ hitem
  obtain ⟨hvalue, hcolumn⟩ := mem_written_iff.mp hitem
  cases column with
  | id => exact absurd rfl hcolumn
  | createdAt => cases hvalue
  | budget =>
      rw [get?, budget_of] at hvalue
      cases hvalue
      cases commitment.budget with
      | none => exact .ok _
      | some budget => exact Datum.refusesOnly_checkCell_number budget
  | threshold =>
      cases hvalue
      exact Datum.refusesOnly_checkCell_number commitment.stated.m
  | dropped =>
      cases hvalue
      exact Datum.refusesOnly_checkCell_number (.whole commitment.dropped)
  | _ =>
      cases hvalue
      exact .ok _

/-- The record of a commitment is refused exactly when its numbers do not fit. -/
theorem kept_of_eq_error_iff [Machine] (h : commitment.IsOf primitive request) {id : Int}
    {name : String} {output : OutputCommitment} {fault : Fault} :
    (of id (.text name) commitment output).kept = .error fault ↔
      fault = .columnTooWide ∧ ¬ commitment.FitsColumns := by
  obtain ⟨row, hrow⟩ := exists_kept_eq (takes_of h id name output)
  have hcells := RefusesOnly.forM (refusesOnly_checkCell_of commitment id name output)
  rw [hrow, bind_eq_error_iff, fitsColumns_iff id name output, ← forM_eq_ok_iff]
  constructor
  · rintro (hrefused | ⟨_, -, hnever⟩)
    · refine ⟨hcells fault hrefused, fun hfit => ?_⟩
      rw [hfit] at hrefused
      cases hrefused
    · cases hnever
  · rintro ⟨rfl, hwide⟩
    cases hgiven : (of id (.text name) commitment output).written.forM
        fun item => item.1.checkCell item.2 with
    | ok => exact absurd hgiven hwide
    | error refused =>
        left
        rw [hcells refused hgiven]

theorem fitsColumns_of_kept [Machine] (h : commitment.IsOf primitive request) {id : Int}
    {name : String} {output : OutputCommitment} {row : StoredCommitment}
    (hkept : (of id (.text name) commitment output).kept = .ok row) : commitment.FitsColumns := by
  by_contra hwide
  rw [(kept_of_eq_error_iff h).mpr ⟨rfl, hwide⟩] at hkept
  cases hkept

end StoredCommitment

/-- Saving under a free name is refused when there is no output, or when a number does not fit. -/
theorem Store.save_eq_error_iff [Machine] {primitive : Primitive} {request : PolicyRequest}
    {commitment : Commitment} (h : commitment.IsOf primitive request) {store : Store}
    {name : String} (hfresh : store.find? (.text name) = none) {fault : Fault} :
    store.save commitment name = .error fault ↔
      commitment.output = .error fault ∨
        (∃ output, commitment.output = .ok output) ∧ fault = .columnTooWide ∧
          ¬ commitment.FitsColumns := by
  simp only [save, saveData, bind_eq_error_iff]
  refine or_congr_right ?_
  constructor
  · rintro ⟨output, houtput, hkept | ⟨row, hkept, hinsert | ⟨_, -, hnever⟩⟩⟩
    · exact ⟨⟨output, houtput⟩, (StoredCommitment.kept_of_eq_error_iff h).mp hkept⟩
    · have hname : row.name = .text name := by
        rw [StoredCommitment.eq_of_kept hkept]
        rfl
      rw [insert_eq_ok hfresh hname] at hinsert
      cases hinsert
    · cases hnever
  · rintro ⟨⟨output, houtput⟩, hwide⟩
    exact ⟨output, houtput, .inl ((StoredCommitment.kept_of_eq_error_iff h).mpr hwide)⟩

end QuorumTree
