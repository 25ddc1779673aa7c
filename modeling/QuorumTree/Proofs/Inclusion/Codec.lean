import Mathlib.Data.List.Flatten
import QuorumTree.Proofs.CompactSize
import QuorumTree.Proofs.Inclusion.Packing
import QuorumTree.Proofs.Inclusion.Value
import QuorumTree.Proofs.Text.Hex

/-!
Proofs and their bytes. Reading gives exactly the proofs of bounded length, each from the one byte
string that it is written as; every other byte string is refused as a bad encoding.
-/

namespace QuorumTree

theorem length_flatten_bytes (siblings : List Bytes32) :
    (siblings.map (·.bytes)).flatten.length = 32 * siblings.length := by
  induction siblings with
  | nil => rfl
  | cons sibling siblings ih =>
      rw [List.map_cons, List.flatten_cons, List.length_append, ih, sibling.length_bytes,
        List.length_cons]
      omega

theorem readHashes_append (siblings : List Bytes32) (rest : Bytes) :
    readHashes siblings.length ((siblings.map (·.bytes)).flatten ++ rest) = some siblings := by
  induction siblings with
  | nil => rfl
  | cons sibling siblings ih =>
      rw [List.map_cons, List.flatten_cons, List.append_assoc, List.length_cons, readHashes,
        List.take_left' sibling.length_bytes, List.drop_left' sibling.length_bytes, ih,
        Bytes32.ofBytes?_bytes]
      rfl

theorem eq_append_of_readHashes {count : Nat} {bytes : Bytes} {siblings : List Bytes32}
    (h : readHashes count bytes = some siblings) :
    siblings.length = count ∧
      bytes = (siblings.map (·.bytes)).flatten ++ bytes.drop (32 * count) := by
  induction count generalizing bytes siblings with
  | zero =>
      cases h
      exact ⟨rfl, rfl⟩
  | succ count ih =>
      simp only [readHashes, Option.bind_eq_bind, Option.bind_eq_some_iff] at h
      obtain ⟨first, hfirst, rest, hrest, hsiblings⟩ := h
      cases hsiblings
      obtain ⟨hlength, hbytes⟩ := ih hrest
      refine ⟨congrArg (· + 1) hlength, ?_⟩
      rw [List.map_cons, List.flatten_cons, Bytes32.ofBytes?_eq_some_iff.mp hfirst,
        List.append_assoc, show 32 * (count + 1) = 32 + 32 * count by omega, ← List.drop_drop,
        ← hbytes, List.take_append_drop]

theorem exists_readHashes (count : Nat) (bytes : Bytes) (h : 32 * count ≤ bytes.length) :
    ∃ siblings, readHashes count bytes = some siblings := by
  induction count generalizing bytes with
  | zero => exact ⟨[], rfl⟩
  | succ count ih =>
      obtain ⟨rest, hrest⟩ := ih (bytes.drop 32) (by rw [List.length_drop]; omega)
      have hfirst : (bytes.take 32).length = 32 := by
        rw [List.length_take]
        omega
      exact ⟨⟨bytes.take 32, hfirst⟩ :: rest, by simp [readHashes, Bytes32.ofBytes?, hfirst, hrest]⟩

@[simp] theorem Side.ofBit_isLeft (side : Side) : Side.ofBit side.isLeft = side := by
  cases side <;> rfl

@[simp] theorem Side.isLeft_ofBit (bit : Bool) : (Side.ofBit bit).isLeft = bit := by
  cases bit <;> rfl

namespace InclusionProof

/-- Bits beyond the last sibling are not looked at. -/
theorem ofSiblings_append (proof : InclusionProof) (rest : List Bool) :
    ofSiblings (proof.steps.map (·.sibling)) (proof.steps.map (·.side.isLeft) ++ rest) = proof := by
  obtain ⟨steps⟩ := proof
  rw [ofSiblings, InclusionProof.mk.injEq]
  induction steps with
  | nil => rfl
  | cons step steps ih => simpa using ih

theorem siblings_ofSiblings {siblings : List Bytes32} {bits : List Bool}
    (h : siblings.length ≤ bits.length) :
    (ofSiblings siblings bits).steps.map (·.sibling) = siblings := by
  induction siblings generalizing bits with
  | nil => rfl
  | cons sibling siblings ih =>
      cases bits with
      | nil => simp at h
      | cons bit bits => simpa [ofSiblings] using ih (by simpa using h)

theorem sides_ofSiblings (siblings : List Bytes32) (bits : List Bool) :
    (ofSiblings siblings bits).steps.map (·.side.isLeft) = bits.take siblings.length := by
  induction siblings generalizing bits with
  | nil => rfl
  | cons sibling siblings ih =>
      cases bits with
      | nil => rfl
      | cons bit bits => simpa [ofSiblings] using ih bits

theorem encode_eq (proof : InclusionProof) :
    proof.encode = CompactSize.encode proof.steps.length ++
      (((proof.steps.map (·.sibling)).map (·.bytes)).flatten ++
        packBits (bitWidth proof.steps.length) (proof.steps.map (·.side.isLeft))) := by
  simp [encode, layOut, Function.comp_def]

/-- What is read from a well-formed encoding is the proof it was made from. -/
theorem decode_encode {proof : InclusionProof} (h : proof.steps.length ≤ maxProofDepth) :
    decode proof.encode = .ok proof := by
  have hsmall : proof.steps.length < 2 ^ 64 := Nat.lt_of_le_of_lt h (by decide)
  have hhashes : (((proof.steps.map (·.sibling)).map (·.bytes)).flatten).length =
      32 * proof.steps.length := by
    rw [length_flatten_bytes, List.length_map]
  have hsiblings := readHashes_append (proof.steps.map (·.sibling))
    (packBits (bitWidth proof.steps.length) (proof.steps.map (·.side.isLeft)))
  rw [List.length_map] at hsiblings
  have hbits : (proof.steps.map (·.side.isLeft)).length ≤ 8 * bitWidth proof.steps.length := by
    rw [List.length_map, bitWidth]
    omega
  have hwidth : (CompactSize.encode proof.steps.length ++
      (((proof.steps.map (·.sibling)).map (·.bytes)).flatten ++
        packBits (bitWidth proof.steps.length) (proof.steps.map (·.side.isLeft)))).length =
      (CompactSize.encode proof.steps.length).length + 32 * proof.steps.length +
        bitWidth proof.steps.length := by
    rw [List.length_append, List.length_append, hhashes, length_packBits]
    omega
  have hpadding (count : Nat) : ((proof.steps.map (·.side.isLeft) ++
      List.replicate count false).drop proof.steps.length).any id = false := by
    rw [List.drop_left' (List.length_map _), List.any_replicate]
    split_ifs <;> rfl
  rw [decode, encode_eq, CompactSize.decode_append hsmall]
  dsimp only
  rw [if_neg (Nat.not_lt.mpr h), if_neg (not_not.mpr hwidth), ← List.drop_drop, List.drop_left,
    List.drop_left' hhashes, hsiblings, unpackBits_packBits hbits]
  dsimp only
  rw [hpadding, if_neg Bool.false_ne_true, ofSiblings_append]

/-- Nothing is read but encodings of proofs of bounded length. -/
theorem eq_encode_of_decode {data : Bytes} {proof : InclusionProof} (h : decode data = .ok proof) :
    proof.steps.length ≤ maxProofDepth ∧ proof.encode = data := by
  unfold decode at h
  cases hcount : CompactSize.decode data with
  | error fault => simp [hcount] at h
  | ok read =>
      obtain ⟨count, offset⟩ := read
      obtain ⟨rest, rfl, rfl, -⟩ := CompactSize.eq_append_of_decode hcount
      rw [hcount] at h
      dsimp only at h
      rw [← List.drop_drop, List.drop_left] at h
      split_ifs at h with hdepth hwidth hpadding
      · split at h <;> cases h
      -- The width leaves exactly the siblings and the packed bits after the number of steps.
      · have hlength : rest.length = 32 * count + bitWidth count := by
          rw [List.length_append] at hwidth
          omega
        obtain ⟨siblings, hsiblings⟩ := exists_readHashes count rest (by omega)
        obtain ⟨rfl, hrest⟩ := eq_append_of_readHashes hsiblings
        rw [hsiblings] at h
        cases h
        have hbits : siblings.length ≤ (unpackBits (rest.drop (32 * siblings.length))).length := by
          rw [length_unpackBits, List.length_drop, hlength, bitWidth]
          omega
        have hsteps : (ofSiblings siblings
            (unpackBits (rest.drop (32 * siblings.length)))).steps.length = siblings.length := by
          have hmap := congrArg List.length (siblings_ofSiblings hbits)
          rwa [List.length_map] at hmap
        have hpack := packBits_take_unpackBits (Bool.eq_false_iff.mpr hpadding)
        rw [List.length_drop, hlength, Nat.add_sub_cancel_left] at hpack
        refine ⟨by omega, ?_⟩
        rw [encode_eq, hsteps, siblings_ofSiblings hbits, sides_ofSiblings, hpack, ← hrest]

theorem decode_eq_ok_iff {data : Bytes} {proof : InclusionProof} :
    decode data = .ok proof ↔ proof.steps.length ≤ maxProofDepth ∧ proof.encode = data := by
  constructor
  · exact eq_encode_of_decode
  · rintro ⟨hlength, rfl⟩
    exact decode_encode hlength

/-- Whatever is not read is refused as a bad encoding. -/
theorem kind_of_decode_eq_error {data : Bytes} {fault : Fault} (h : decode data = .error fault) :
    fault.kind = .proofEncoding := by
  unfold decode at h
  cases hcount : CompactSize.decode data with
  | error found =>
      have hkind := CompactSize.kind_of_decode_eq_error hcount
      simp only [hcount, hkind, FaultKind.isInvalidValue, if_true, Except.error.injEq] at h
      subst h
      rfl
  | ok read =>
      rw [hcount] at h
      dsimp only at h
      split_ifs at h
      · cases h
        rfl
      · cases h
        rfl
      · split at h <;> cases h <;> rfl
      · split at h <;> cases h
        rfl

theorem ofHex_hex {proof : InclusionProof} (h : proof.steps.length ≤ maxProofDepth) :
    ofHex proof.hex = .ok proof := by
  rw [ofHex, hex, Hex.decodeSpaced_encode]
  exact decode_encode h

end InclusionProof

/-- A value stands for a proof of bounded length when it is the proof, written out, or the bytes of
it. -/
theorem Datum.toProof?_eq_some_iff {value : Datum} {proof : InclusionProof} :
    value.toProof? = some proof ↔ proof.steps.length ≤ maxProofDepth ∧
      (value = proof.toDatum ∨ value = .bytes proof.encode) := by
  constructor
  · intro h
    cases value with
    | bytes data =>
        cases hdecode : InclusionProof.decode data with
        | error => simp [toProof?, hdecode, Except.toOption] at h
        | ok read =>
            obtain rfl : read = proof := by simpa [toProof?, hdecode, Except.toOption] using h
            obtain ⟨hlength, hencode⟩ := InclusionProof.decode_eq_ok_iff.mp hdecode
            exact ⟨hlength, .inr (congrArg Datum.bytes hencode.symm)⟩
    | proof isFixed values =>
        cases isFixed with
        | false => cases h
        | true =>
            rw [toProof?] at h
            split_ifs at h with hlength
            obtain ⟨steps, hsteps, rfl⟩ := Option.map_eq_some_iff.mp h
            rw [mapM_toStep?_eq_some_iff] at hsteps
            rw [hsteps, List.length_map] at hlength
            exact ⟨hlength, .inl (congrArg (Datum.proof true) hsteps)⟩
    | _ => cases h
  · rintro ⟨hlength, rfl | rfl⟩
    · exact toProof?_toDatum hlength
    · rw [toProof?, InclusionProof.decode_encode hlength]
      rfl

namespace InclusionProof

/-- Reading and writing are inverse to each other. A byte string is read as a value exactly when
that value is a well-formed proof and the byte string is how it is written; a byte string that
writes nothing is refused as a bad encoding; every well-formed proof is read back from its bytes and
from their hexadecimal text; and no two byte strings are read as one proof. -/
theorem decode_iff_encode (data : Bytes) :
    (∀ value : Datum, (∃ proof, decode data = .ok proof ∧ isProof value proof = true) ↔
        value.IsWellFormedProof ∧ encodeData value = .ok data) ∧
      ((∀ value : Datum, value.IsWellFormedProof → encodeData value ≠ .ok data) →
        ∃ fault, decode data = .error fault ∧ fault.kind = .proofEncoding) ∧
      (∀ value : Datum, value.IsWellFormedProof →
        ∃ proof, isProof value proof = true ∧ encodeData value = .ok proof.encode ∧
          decode proof.encode = .ok proof ∧ ofHex proof.hex = .ok proof) ∧
      ∀ proof other, decode data = .ok proof → decode other = .ok proof → other = data := by
  refine ⟨fun value => ⟨?_, ?_⟩, fun hnone => ?_, fun value hvalue => ?_, ?_⟩
  · rintro ⟨proof, hread, hvalue⟩
    obtain ⟨hlength, rfl⟩ := decode_eq_ok_iff.mp hread
    rw [isProof_iff.mp hvalue]
    exact ⟨Datum.isWellFormedProof_toDatum hlength, encodeData_toDatum proof⟩
  · rintro ⟨hvalue, hwritten⟩
    obtain ⟨proof, hlength, rfl⟩ := Datum.isWellFormedProof_iff.mp hvalue
    rw [encodeData_toDatum, Except.ok.injEq] at hwritten
    exact ⟨proof, decode_eq_ok_iff.mpr ⟨hlength, hwritten⟩, isProof_iff.mpr rfl⟩
  · cases hread : decode data with
    | error fault => exact ⟨fault, rfl, kind_of_decode_eq_error hread⟩
    | ok proof =>
        obtain ⟨hlength, hwritten⟩ := decode_eq_ok_iff.mp hread
        have hencode := encodeData_toDatum proof
        rw [hwritten] at hencode
        exact absurd hencode (hnone _ (Datum.isWellFormedProof_toDatum hlength))
  · obtain ⟨proof, hlength, rfl⟩ := Datum.isWellFormedProof_iff.mp hvalue
    exact ⟨proof, isProof_iff.mpr rfl, encodeData_toDatum proof, decode_encode hlength,
      ofHex_hex hlength⟩
  · intro proof other hdata hother
    rw [← (decode_eq_ok_iff.mp hdata).2, ← (decode_eq_ok_iff.mp hother).2]

/-- One step to the left, read from its thirty-four bytes. -/
theorem decode_one_step_to_the_left :
    ∃ proof, decode (0x01 :: List.replicate 32 0xab ++ [0x01]) = .ok proof ∧
      isProof (.proof true [(.text "left", .bytes (List.replicate 32 0xab))]) proof = true :=
  ((decode_iff_encode (0x01 :: List.replicate 32 0xab ++ [0x01])).1
    (.proof true [(.text "left", .bytes (List.replicate 32 0xab))])).mpr
      ⟨⟨by decide, by simp⟩, by decide⟩

end InclusionProof

end QuorumTree
