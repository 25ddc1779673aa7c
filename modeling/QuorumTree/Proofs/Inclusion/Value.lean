import QuorumTree.Proof.Untrusted
import QuorumTree.Proofs.Traversal

/-!
Proofs among the values of every kind. A value is a well-formed proof exactly when it is one of the
proofs that a tree could make, written out as a value.
-/

namespace QuorumTree

/-- The text that names a side. -/
def Side.name : Side → String
  | .left => "left"
  | .right => "right"

/-- A step as a pair of values. -/
def Step.toData (step : Step) : Datum × Datum :=
  (.text step.side.name, .bytes step.sibling.bytes)

/-- A proof as a value. -/
def InclusionProof.toDatum (proof : InclusionProof) : Datum :=
  .proof true (proof.steps.map Step.toData)

/-- A proof as a value has at most `maxProofDepth` steps in a fixed sequence, each with a sibling of
thirty-two bytes and the name of a side. -/
def Datum.IsWellFormedProof : Datum → Prop
  | .proof true steps =>
    steps.length ≤ maxProofDepth ∧
      ∀ step ∈ steps, (step.1 = .text "left" ∨ step.1 = .text "right") ∧
        ∃ sibling : Bytes, step.2 = .bytes sibling ∧ sibling.length = 32
  | _ => False

namespace Datum

@[simp] theorem toStep?_toData (step : Step) : toStep? step.toData = some step := by
  obtain ⟨side, sibling⟩ := step
  cases side <;> simp [toStep?, Step.toData, Side.name, toSide?, toHash?]

theorem toHash?_eq_some_iff {value : Datum} {hash : Bytes32} :
    value.toHash? = some hash ↔ value = .bytes hash.bytes := by
  cases value with
  | bytes value =>
      simp only [toHash?, Bytes32.ofBytes?_eq_some_iff, Datum.bytes.injEq]
      exact eq_comm
  | _ => simp [toHash?]

theorem toSide?_eq_some_iff {value : Datum} {side : Side} :
    value.toSide? = some side ↔ value = .text side.name := by
  cases value with
  | text value =>
      cases side <;> simp only [toSide?, Side.name, Datum.text.injEq] <;> split_ifs <;> simp_all
  | _ => simp [toSide?]

theorem toStep?_eq_some_iff {value : Datum × Datum} {step : Step} :
    toStep? value = some step ↔ value = step.toData := by
  constructor
  · intro h
    simp only [toStep?, Option.bind_eq_bind, Option.bind_eq_some_iff] at h
    obtain ⟨side, hside, sibling, hsibling, hstep⟩ := h
    cases hstep
    rw [toSide?_eq_some_iff] at hside
    rw [toHash?_eq_some_iff] at hsibling
    exact Prod.ext hside hsibling
  · rintro rfl
    exact toStep?_toData step

theorem mapM_toStep?_eq_some_iff {values : List (Datum × Datum)} {steps : List Step} :
    values.mapM toStep? = some steps ↔ values = steps.map Step.toData := by
  simp only [mapM_eq_some_iff, toStep?_eq_some_iff]
  rw [← List.forall₂_map_right_iff, List.forall₂_eq_eq_eq]

theorem isWellFormedProof_toDatum {proof : InclusionProof}
    (h : proof.steps.length ≤ maxProofDepth) : proof.toDatum.IsWellFormedProof := by
  refine ⟨by simpa using h, ?_⟩
  intro value hvalue
  obtain ⟨step, -, rfl⟩ := List.mem_map.mp hvalue
  refine ⟨?_, step.sibling.bytes, rfl, step.sibling.length_bytes⟩
  cases hside : step.side <;> simp [Step.toData, hside, Side.name]

theorem exists_toData {value : Datum × Datum}
    (hside : value.1 = .text "left" ∨ value.1 = .text "right")
    (hsibling : ∃ sibling : Bytes, value.2 = .bytes sibling ∧ sibling.length = 32) :
    ∃ step : Step, value = step.toData := by
  obtain ⟨side, sibling⟩ := value
  obtain ⟨bytes, rfl, hlength⟩ := hsibling
  rcases hside with rfl | rfl
  · exact ⟨⟨.left, ⟨bytes, hlength⟩⟩, rfl⟩
  · exact ⟨⟨.right, ⟨bytes, hlength⟩⟩, rfl⟩

theorem exists_map_toData {values : List (Datum × Datum)}
    (h : ∀ value ∈ values, ∃ step : Step, value = step.toData) :
    ∃ steps : List Step, values = steps.map Step.toData := by
  induction values with
  | nil => exact ⟨[], rfl⟩
  | cons value values ih =>
      obtain ⟨step, rfl⟩ := h value List.mem_cons_self
      obtain ⟨steps, rfl⟩ := ih fun value hvalue => h value (List.mem_cons_of_mem _ hvalue)
      exact ⟨step :: steps, rfl⟩

/-- The well-formed proofs among the values are the proofs of bounded length, written out. -/
theorem isWellFormedProof_iff {value : Datum} :
    value.IsWellFormedProof ↔
      ∃ proof : InclusionProof, proof.steps.length ≤ maxProofDepth ∧ value = proof.toDatum := by
  constructor
  · intro h
    match value, h with
    | .proof true values, ⟨hlength, hvalues⟩ =>
        obtain ⟨steps, rfl⟩ := exists_map_toData fun value hvalue =>
          exists_toData (hvalues value hvalue).1 (hvalues value hvalue).2
        exact ⟨⟨steps⟩, by simpa using hlength, rfl⟩
  · rintro ⟨proof, hlength, rfl⟩
    exact isWellFormedProof_toDatum hlength

theorem toProof?_toDatum {proof : InclusionProof} (h : proof.steps.length ≤ maxProofDepth) :
    proof.toDatum.toProof? = some proof := by
  have hsteps := mapM_toStep?_eq_some_iff.mpr (rfl : proof.steps.map Step.toData = _)
  simp [InclusionProof.toDatum, toProof?, h, hsteps]

end Datum

theorem isProof_iff {value : Datum} {proof : InclusionProof} :
    isProof value proof = true ↔ value = proof.toDatum := by
  unfold isProof
  split
  · next values =>
      rw [beq_iff_eq, Option.map_eq_some_iff]
      constructor
      · rintro ⟨steps, hsteps, rfl⟩
        rw [Datum.mapM_toStep?_eq_some_iff.mp hsteps]
        rfl
      · intro h
        have hvalues : values = proof.steps.map Step.toData := by
          simpa [InclusionProof.toDatum] using h
        exact ⟨proof.steps, Datum.mapM_toStep?_eq_some_iff.mpr hvalues, rfl⟩
  · next hvalue =>
      simp only [Bool.false_eq_true, false_iff]
      rintro rfl
      exact hvalue _ rfl

/-- A proof has the same bytes whether it is written from its steps or from a value. -/
theorem encodeData_toDatum (proof : InclusionProof) :
    encodeData proof.toDatum = .ok proof.encode := by
  have hsiblings : (proof.steps.map Step.toData).mapM siblingBytes =
      .ok (proof.steps.map (·.sibling.bytes)) := by
    rw [mapM_eq_ok_iff, List.forall₂_map_left_iff, List.forall₂_map_right_iff,
      List.forall₂_same]
    intro step _
    rfl
  have hsides : (proof.steps.map Step.toData).map (fun step => step.1.toSide? == some .left) =
      proof.steps.map (·.side.isLeft) := by
    rw [List.map_map]
    refine List.map_congr_left fun step _ => ?_
    obtain ⟨side, sibling⟩ := step
    cases side <;> rfl
  simp only [InclusionProof.toDatum, encodeData, hsiblings, hsides]
  rfl

end QuorumTree
