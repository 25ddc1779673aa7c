import QuorumTree.Proofs.Inclusion.Position
import QuorumTree.Proofs.Inclusion.Reading

/-!
The verdict on untrusted values. It is reached by operations that may each be refused: bytes are
read, steps are hashed, a number of leaves is asked for the depth of its tree. Behind the guards
that come before it none of them is, so there is always a verdict, and it is the one of
`verifyData`.
-/

namespace QuorumTree

namespace Datum

/-- The value that is looked at in a proof's place: a byte string is read, and stands for nothing
when it is a bad encoding. -/
def received : Datum → Except Fault (Option Datum)
  | bytes data =>
    match InclusionProof.decodeByPosition data with
    | .ok value => .ok (some value)
    | .error fault => if fault.kind = .proofEncoding then .ok none else .error fault
  | value => .ok (some value)

def stepPasses (step : Datum × Datum) : Bool :=
  step.2.toHash?.isSome && step.1.toSide?.isSome

/-- The steps of a value that passes for a proof. -/
def steps? : Datum → Option (List (Datum × Datum))
  | proof true steps =>
    if steps.length ≤ maxProofDepth ∧ steps.all stepPasses = true then some steps else none
  | _ => none

/-- Whether the tree of a number of leaves, where there is one, is as deep as the steps are many. -/
def fitsDepth (leafCount : Datum) (steps : Nat) : Except Fault Bool :=
  match leafCount with
  | null => .ok true
  | value =>
    match value.toInt? with
    | none => .ok false
    | some count => if count < 1 then .ok false else (treeDepthOfData value).map (steps == ·)

end Datum

/-- The verdict, guard by guard. Every operation stands behind the guards that it relies on. -/
def verdict [Machine] (leaf proof root leafCount : Datum) : Except Fault Bool := do
  match (← proof.received).bind Datum.steps? with
  | none => return false
  | some steps =>
    match leaf.toHash?, root.toHash? with
    | some _, some root =>
      if ← leafCount.fitsDepth steps.length then
        return (← rootFromData leaf (.proof true steps)) == root.bytes
      else return false
    | _, _ => return false

/-! ### No operation is refused -/

namespace Datum

theorem stepPasses_eq (step : Datum × Datum) : stepPasses step = (toStep? step).isSome := by
  rw [stepPasses, toStep?]
  cases step.1.toSide? <;> cases step.2.toHash? <;> rfl

/-- The check of every step lets through exactly what can be read step by step. -/
theorem all_stepPasses_iff {values : List (Datum × Datum)} :
    values.all stepPasses = true ↔ ∃ steps, values.mapM toStep? = some steps := by
  simp only [mapM_toStep?_eq_some_iff]
  constructor
  · intro h
    refine exists_map_toData fun value hvalue => ?_
    have hpasses := List.all_eq_true.mp h value hvalue
    rw [stepPasses_eq, Option.isSome_iff_exists] at hpasses
    obtain ⟨step, hstep⟩ := hpasses
    exact ⟨step, toStep?_eq_some_iff.mp hstep⟩
  · rintro ⟨steps, rfl⟩
    refine List.all_eq_true.mpr fun value hvalue => ?_
    obtain ⟨step, -, rfl⟩ := List.mem_map.mp hvalue
    rw [stepPasses_eq, toStep?_toData]
    rfl

theorem steps?_proof (values : List (Datum × Datum)) :
    (proof true values).steps? =
      (proof true values).toProof?.map fun read => read.steps.map Step.toData := by
  rw [steps?, toProof?]
  by_cases hlength : values.length ≤ maxProofDepth
  · have hall : values.all stepPasses = true ↔ _ := all_stepPasses_iff
    rw [if_pos hlength]
    cases hsteps : values.mapM toStep? with
    | none =>
        rw [if_neg fun h => by simpa [hsteps] using hall.mp h.2]
        rfl
    | some steps =>
        rw [if_pos ⟨hlength, hall.mpr ⟨steps, hsteps⟩⟩, mapM_toStep?_eq_some_iff.mp hsteps]
        rfl
  · rw [if_neg fun h => hlength h.1, if_neg hlength]
    rfl

/-- What is received passes for a proof exactly when the value is or encodes one. -/
theorem exists_received (value : Datum) :
    ∃ found, value.received = .ok found ∧
      found.bind steps? = value.toProof?.map fun read => read.steps.map Step.toData := by
  cases value with
  | bytes data =>
      rw [received, InclusionProof.decodeByPosition_eq, toProof?]
      cases hread : InclusionProof.decode data with
      | error fault => exact ⟨none, if_pos (InclusionProof.kind_of_decode_eq_error hread), rfl⟩
      | ok read =>
          have hlength := (InclusionProof.decode_eq_ok_iff.mp hread).1
          have hsteps := steps?_proof (read.steps.map Step.toData)
          rw [← InclusionProof.toDatum, toProof?_toDatum hlength] at hsteps
          exact ⟨some read.toDatum, rfl, hsteps⟩
  | proof isFixed values =>
      refine ⟨_, rfl, ?_⟩
      cases isFixed with
      | false => rfl
      | true => exact steps?_proof values
  | _ => exact ⟨_, rfl, rfl⟩

/-- A number of leaves that counts something at all has a tree, and with it a depth. -/
theorem treeDepthOfData_eq_ok {leafCount : Datum} {count : Int}
    (hcount : leafCount.toInt? = some count) (hpositive : 1 ≤ count) :
    treeDepthOfData leafCount = .ok (treeDepth count.toNat) := by
  obtain ⟨number, hnumber, hvalue⟩ := Option.bind_eq_some_iff.mp hcount
  have hlt : number.lt (.whole 1) = false := by
    have hone : (Number.whole 1).toInt? = some 1 := rfl
    rw [Number.lt, hvalue, hone]
    exact decide_eq_false (Int.not_lt.mpr hpositive)
  rw [treeDepthOfData, toNumber, hnumber]
  simp [bind, Except.bind, treeDepthOf, hlt, hvalue]

/-- Whether so many steps meet a condition on the number of leaves. -/
def meets (steps : Nat) : Option Int → Bool
  | none => true
  | some count => 1 ≤ count && steps == treeDepth count.toNat

theorem toLeafCount?_of_ne_null {leafCount : Datum} (h : leafCount ≠ .null) :
    leafCount.toLeafCount? = leafCount.toInt?.map some := by
  cases leafCount with
  | null => exact absurd rfl h
  | _ => rfl

theorem fitsDepth_of_ne_null {leafCount : Datum} (h : leafCount ≠ .null) (steps : Nat) :
    leafCount.fitsDepth steps = match leafCount.toInt? with
      | none => .ok false
      | some count =>
          if count < 1 then .ok false else (treeDepthOfData leafCount).map (steps == ·) := by
  cases leafCount with
  | null => exact absurd rfl h
  | _ => rfl

/-- A depth is asked for only of what counts at least one leaf. -/
theorem fitsDepth_eq_ok (leafCount : Datum) (steps : Nat) :
    leafCount.fitsDepth steps = .ok (leafCount.toLeafCount?.any (meets steps)) := by
  by_cases hnull : leafCount = .null
  · subst hnull
    rfl
  · rw [fitsDepth_of_ne_null hnull, toLeafCount?_of_ne_null hnull]
    cases hcount : leafCount.toInt? with
    | none => rfl
    | some count =>
        change (if count < 1 then _ else _) = Except.ok (meets steps (some count))
        by_cases hpositive : 1 ≤ count
        · rw [if_neg (Int.not_lt.mpr hpositive), treeDepthOfData_eq_ok hcount hpositive, meets,
            decide_eq_true hpositive, Bool.true_and]
          rfl
        · rw [if_pos (Int.not_le.mp hpositive), meets, decide_eq_false hpositive, Bool.false_and]

end Datum

theorem branchOfDatum_sibling (step : Step) (node : Bytes32) :
    branchOfDatum (.bytes step.sibling.bytes) node.bytes step.side.isLeft =
      .ok (step.parent node).bytes := by
  obtain ⟨side, sibling⟩ := step
  have hsibling : sibling.bytes.length = 32 := sibling.length_bytes
  have hnode : node.bytes.length = 32 := node.length_bytes
  cases side <;>
    simp [branchOfDatum, Side.isLeft, Datum.size?, hsibling, hnode, branchHashOf, Step.parent,
      Except.map]

theorem foldSteps_cons (step : Step) (node : Bytes) (values : List (Datum × Datum)) :
    foldSteps node (step.toData :: values) =
      branchOfDatum (.bytes step.sibling.bytes) node step.side.isLeft >>= (foldSteps · values) := by
  have hside : (Datum.text step.side.name).toSide? = some step.side :=
    Datum.toSide?_eq_some_iff.mpr rfl
  rw [Step.toData, foldSteps, hside]
  cases step.side <;> rfl

/-- Hashing meets its own checks of lengths and sides at every step. -/
theorem foldSteps_toData (steps : List Step) (node : Bytes32) :
    foldSteps node.bytes (steps.map Step.toData) =
      .ok (InclusionProof.rootFrom ⟨steps⟩ node).bytes := by
  induction steps generalizing node with
  | nil => rfl
  | cons step steps ih =>
      rw [List.map_cons, foldSteps_cons, branchOfDatum_sibling, rootFrom_cons]
      exact ih (step.parent node)

theorem rootFromData_toDatum [Machine] (leaf : Bytes32) (proof : InclusionProof) :
    rootFromData (.bytes leaf.bytes) proof.toDatum = .ok (proof.rootFrom leaf).bytes :=
  foldSteps_toData proof.steps leaf

theorem verify_eq {read : InclusionProof} (hlength : read.steps.length ≤ maxProofDepth)
    (leaf root : Bytes32) (condition : Option Int) :
    read.verify leaf root condition =
      (Datum.meets read.steps.length condition && (read.rootFrom leaf).bytes == root.bytes) := by
  have hsame : (read.rootFrom leaf == root) = ((read.rootFrom leaf).bytes == root.bytes) := by
    rw [Bool.eq_iff_iff, beq_iff_eq, beq_iff_eq]
    exact ⟨congrArg _, Bytes32.eq_of_bytes_eq⟩
  unfold InclusionProof.verify
  rw [← hsame, decide_eq_true hlength, Bool.true_and]
  rfl

/-- There is always a verdict. -/
theorem verdict_eq_ok [Machine] (leaf proof root leafCount : Datum) :
    verdict leaf proof root leafCount = .ok (verifyData leaf proof root leafCount) := by
  obtain ⟨found, hfound, hsteps⟩ := proof.exists_received
  unfold verdict verifyData
  rw [hfound]
  change (match found.bind Datum.steps? with
    | none => _
    | some steps => _) = _
  rw [hsteps]
  -- What passes has been read in full, so that nothing but its steps is hashed from here on.
  cases hread : proof.toProof? with
  | none => rfl
  | some read =>
      cases hleaf : leaf.toHash? with
      | none => rfl
      | some leafHash =>
          cases root.toHash? with
          | none => rfl
          | some rootHash =>
              obtain rfl := Datum.toHash?_eq_some_iff.mp hleaf
              have hfold : rootFromData (.bytes leafHash.bytes)
                  (.proof true (read.steps.map Step.toData)) = _ :=
                rootFromData_toDatum leafHash read
              simp only [Option.map_some, Datum.fitsDepth_eq_ok, List.length_map, hfold]
              cases leafCount.toLeafCount? with
              | none => rfl
              | some condition =>
                  change _ = Except.ok (read.verify leafHash rootHash condition)
                  rw [Option.any_some, verify_eq (Datum.toProof?_eq_some_iff.mp hread).1]
                  cases Datum.meets read.steps.length condition <;> rfl

/-! ### What is accepted -/

/-- What makes values lead to a root: a proof of bounded length, or the bytes that one is read from;
a leaf and a root of thirty-two bytes; no number of leaves, or one whose tree is as deep as the
steps are many; and steps that take the leaf to the root. -/
structure LeadsTo [Machine] (steps : List (Datum × Datum)) (leaf proof root leafCount : Datum)
    : Prop where
  isProof : proof = .proof true steps ∨ ∃ data read, proof = .bytes data ∧
    InclusionProof.decode data = .ok read ∧ isProof (.proof true steps) read = true
  wellFormed : (Datum.proof true steps).IsWellFormedProof
  leaf_isHash : ∃ bytes : Bytes, leaf = .bytes bytes ∧ bytes.length = 32
  root_isHash : ∃ bytes : Bytes, root = .bytes bytes ∧ bytes.length = 32 ∧
    rootFromData leaf (.proof true steps) = .ok bytes
  fits : leafCount = .null ∨ ∃ count : Int, leafCount.toInt? = some count ∧ 1 ≤ count ∧
    treeDepthOfData leafCount = .ok steps.length

theorem verifyData_eq_true_iff {leaf proof root leafCount : Datum} :
    verifyData leaf proof root leafCount = true ↔
      ∃ read leafHash rootHash condition, proof.toProof? = some read ∧
        leaf = .bytes leafHash.bytes ∧ root = .bytes rootHash.bytes ∧
        leafCount.toLeafCount? = some condition ∧
        Datum.meets read.steps.length condition = true ∧ read.rootFrom leafHash = rootHash := by
  constructor
  · intro h
    unfold verifyData at h
    split at h
    · next read leafHash rootHash condition hread hleaf hroot hcondition =>
        rw [verify_eq (Datum.toProof?_eq_some_iff.mp hread).1, Bool.and_eq_true, beq_iff_eq] at h
        exact ⟨read, leafHash, rootHash, condition, hread, Datum.toHash?_eq_some_iff.mp hleaf,
          Datum.toHash?_eq_some_iff.mp hroot, hcondition, h.1, Bytes32.eq_of_bytes_eq h.2⟩
    · cases h
  · rintro ⟨read, leafHash, _, condition, hread, rfl, rfl, hcondition, hmeets, rfl⟩
    simp only [verifyData, hread, Datum.toHash?, Bytes32.ofBytes?_bytes, hcondition]
    rw [verify_eq (Datum.toProof?_eq_some_iff.mp hread).1, hmeets, beq_self_eq_true]
    rfl

/-- The conditions that a number of leaves can set: none at all, or the depth of a tree that has
leaves. -/
theorem Datum.exists_meets_iff {leafCount : Datum} {steps : Nat} :
    (∃ condition, leafCount.toLeafCount? = some condition ∧ meets steps condition = true) ↔
      leafCount = .null ∨ ∃ count : Int, leafCount.toInt? = some count ∧ 1 ≤ count ∧
        treeDepthOfData leafCount = .ok steps := by
  constructor
  · rintro ⟨condition, hcondition, hmeets⟩
    refine or_iff_not_imp_left.mpr fun hnull => ?_
    rw [toLeafCount?_of_ne_null hnull, Option.map_eq_some_iff] at hcondition
    obtain ⟨count, hcount, rfl⟩ := hcondition
    rw [meets, Bool.and_eq_true, decide_eq_true_eq, beq_iff_eq] at hmeets
    obtain ⟨hpositive, rfl⟩ := hmeets
    exact ⟨count, hcount, hpositive, treeDepthOfData_eq_ok hcount hpositive⟩
  · rintro (rfl | ⟨count, hcount, hpositive, hdepth⟩)
    · exact ⟨none, rfl, rfl⟩
    · have hnull : leafCount ≠ .null := by
        rintro rfl
        cases hcount
      rw [treeDepthOfData_eq_ok hcount hpositive, Except.ok.injEq] at hdepth
      refine ⟨some count, ?_, ?_⟩
      · rw [toLeafCount?_of_ne_null hnull, hcount]
        rfl
      · simp [meets, hpositive, hdepth]

theorem LeadsTo.exists_read [Machine] {steps : List (Datum × Datum)}
    {leaf proof root leafCount : Datum}
    (h : LeadsTo steps leaf proof root leafCount) :
    ∃ read : InclusionProof, proof.toProof? = some read ∧ steps = read.steps.map Step.toData := by
  rcases h.isProof with rfl | ⟨data, read, rfl, hdecode, hvalue⟩
  · obtain ⟨read, hlength, hvalue⟩ := Datum.isWellFormedProof_iff.mp h.wellFormed
    refine ⟨read, ?_, by simpa [InclusionProof.toDatum] using hvalue⟩
    rw [hvalue]
    exact Datum.toProof?_toDatum hlength
  · refine ⟨read, ?_, by simpa [InclusionProof.toDatum] using isProof_iff.mp hvalue⟩
    rw [Datum.toProof?, hdecode]
    rfl

/-- The verdict on untrusted values. None of its operations is refused, whatever the values are; the
verdict is that of `verifyData`, which accepts exactly what leads to the root; and a well-formed
proof and the bytes of it are accepted alike. -/
theorem verdict_exact [Machine] (leaf proof root leafCount : Datum) :
    verdict leaf proof root leafCount = .ok (verifyData leaf proof root leafCount) ∧
      (verifyData leaf proof root leafCount = true ↔
        ∃ steps, LeadsTo steps leaf proof root leafCount) ∧
      (proof.IsWellFormedProof → ∃ data, encodeData proof = .ok data ∧
        verifyData leaf (.bytes data) root leafCount = verifyData leaf proof root leafCount) := by
  refine ⟨verdict_eq_ok leaf proof root leafCount, ⟨fun h => ?_, ?_⟩, fun h => ?_⟩
  · obtain ⟨read, leafHash, rootHash, condition, hread, rfl, rfl, hcondition, hmeets, hfold⟩ :=
      verifyData_eq_true_iff.mp h
    obtain ⟨hlength, hform⟩ := Datum.toProof?_eq_some_iff.mp hread
    refine ⟨read.steps.map Step.toData, ?_, Datum.isWellFormedProof_toDatum hlength,
      ⟨_, rfl, leafHash.length_bytes⟩, ⟨_, rfl, rootHash.length_bytes, ?_⟩, ?_⟩
    · rcases hform with rfl | rfl
      · exact .inl rfl
      · exact .inr ⟨_, read, rfl, InclusionProof.decode_encode hlength, isProof_iff.mpr rfl⟩
    · rw [← hfold]
      exact rootFromData_toDatum leafHash read
    · rw [List.length_map]
      exact Datum.exists_meets_iff.mp ⟨condition, hcondition, hmeets⟩
  · rintro ⟨steps, h⟩
    obtain ⟨read, hread, rfl⟩ := h.exists_read
    obtain ⟨leafBytes, rfl, hleaf⟩ := h.leaf_isHash
    obtain ⟨rootBytes, rfl, hroot, hfold⟩ := h.root_isHash
    obtain ⟨condition, hcondition, hmeets⟩ := Datum.exists_meets_iff.mpr h.fits
    rw [List.length_map] at hmeets
    have hsame := hfold.symm.trans (rootFromData_toDatum ⟨leafBytes, hleaf⟩ read)
    exact verifyData_eq_true_iff.mpr ⟨read, ⟨leafBytes, hleaf⟩, ⟨rootBytes, hroot⟩, condition,
      hread, rfl, rfl, hcondition, hmeets, Bytes32.eq_of_bytes_eq (Except.ok.inj hsame).symm⟩
  · obtain ⟨read, hlength, rfl⟩ := Datum.isWellFormedProof_iff.mp h
    refine ⟨read.encode, encodeData_toDatum read, ?_⟩
    rw [verifyData, verifyData, Datum.toProof?_toDatum hlength,
      Datum.toProof?_eq_some_iff.mpr ⟨hlength, .inr rfl⟩]

namespace MerkleTree.ThreeLeaves

/-- The proof of the third of three leaves leads to their root, and is accepted as it is and as
bytes. -/
theorem verdict_exact_of_third :
    verdict (.bytes third.bytes) proof.toDatum (.bytes (build first [second, third]).root.bytes)
        (.int (3 : Nat)) = .ok true ∧
      (∃ steps, LeadsTo steps (.bytes third.bytes) proof.toDatum
        (.bytes (build first [second, third]).root.bytes) (.int (3 : Nat))) ∧
      ∃ data, encodeData proof.toDatum = .ok data ∧
        verifyData (.bytes third.bytes) (.bytes data)
          (.bytes (build first [second, third]).root.bytes) (.int (3 : Nat)) = true := by
  obtain ⟨hverdict, hleads, hforms⟩ := verdict_exact (.bytes third.bytes) proof.toDatum
    (.bytes (build first [second, third]).root.bytes) (.int (3 : Nat))
  obtain ⟨data, hdata, hsame⟩ := hforms (Datum.isWellFormedProof_toDatum (by decide))
  rw [verifyData_proof] at hverdict hsame
  exact ⟨hverdict, hleads.mp verifyData_proof, data, hdata, hsame⟩

end MerkleTree.ThreeLeaves

end QuorumTree
