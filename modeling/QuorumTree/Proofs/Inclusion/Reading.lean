import QuorumTree.Proofs.Inclusion.Codec

/-!
Reading a proof position by position. Every step has its slice of the data and its bit of the packed
row, and once the length of the data has been checked no position that is asked for is missing.
-/

namespace QuorumTree

theorem getElem?_lowBits {count index : Nat} (h : index < count) (n : Nat) :
    (lowBits count n)[index]? = some (n.testBit index) := by
  induction count generalizing index n with
  | zero => cases h
  | succ count ih =>
      cases index with
      | zero =>
          rw [lowBits, List.getElem?_cons_zero, Nat.testBit_zero]
          rfl
      | succ index =>
          rw [lowBits, List.getElem?_cons_succ, ih (Nat.lt_of_succ_lt_succ h), Nat.testBit_succ]

/-- Some bit after the first ones is set exactly when a shift past those leaves something. -/
theorem any_drop_lowBits (count n dropped : Nat) :
    ((lowBits count n).drop dropped).any id = ((n % 2 ^ count) >>> dropped != 0) := by
  induction count generalizing n dropped with
  | zero => simp [lowBits, Nat.mod_one]
  | succ count ih =>
      have hmod : n % 2 ^ (count + 1) = n % 2 + 2 * (n / 2 % 2 ^ count) := by
        rw [Nat.pow_succ, Nat.mul_comm, Nat.mod_mul]
      cases dropped with
      | zero =>
          have hrest := ih (n / 2) 0
          rw [List.drop_zero, Nat.shiftRight_zero] at hrest ⊢
          rw [lowBits, List.any_cons, hrest, hmod, Bool.eq_iff_iff]
          simp
          omega
      | succ dropped =>
          have hhalf : n % 2 ^ (count + 1) / 2 = n / 2 % 2 ^ count := by omega
          rw [lowBits, List.drop_succ_cons, ih, Nat.shiftRight_succ_inside, hhalf]

theorem getElem?_unpackBits (bits : Bytes) (index : Nat) :
    (unpackBits bits)[index]? = bits[index / 8]?.map (·.toNat.testBit (index % 8)) := by
  induction bits generalizing index with
  | nil => rfl
  | cons b bits ih =>
      rw [unpackBits, List.flatMap_cons]
      by_cases hfirst : index < 8
      · rw [List.getElem?_append_left (by rwa [length_lowBits]), getElem?_lowBits hfirst,
          Nat.div_eq_of_lt hfirst, Nat.mod_eq_of_lt hfirst]
        rfl
      · have hbyte : index / 8 = (index - 8) / 8 + 1 := by omega
        have hbit : index % 8 = (index - 8) % 8 := by omega
        rw [List.getElem?_append_right (by rw [length_lowBits]; omega), length_lowBits, hbyte, hbit,
          List.getElem?_cons_succ]
        exact ih (index - 8)

/-- The bit at a position of a packed row, looked up in the byte that it stands in. -/
def bitAt (bits : Bytes) (index : Nat) : Except Fault Bool :=
  match bits[index / 8]? with
  | some b => .ok (b.toNat.testBit (index % 8))
  | none => .error .noSuchPosition

theorem bitAt_eq_ok {bits : Bytes} {index : Nat} (h : index < (unpackBits bits).length) :
    bitAt bits index = .ok (unpackBits bits)[index] := by
  have hbit := getElem?_unpackBits bits index
  rw [List.getElem?_eq_getElem h, eq_comm, Option.map_eq_some_iff] at hbit
  obtain ⟨b, hb, hvalue⟩ := hbit
  rw [bitAt, hb, ← hvalue]

/-- Whether the last byte of a packed row holds more than the given number of bits leaves to it. -/
def overhangs (bits : Bytes) (count : Nat) : Except Fault Bool :=
  if count % 8 = 0 then .ok false
  else match bits.getLast? with
    | some last => .ok (last.toNat >>> (count % 8) != 0)
    | none => .error .noSuchPosition

theorem overhangs_eq_ok {bits : Bytes} {count : Nat} (h : bits.length = bitWidth count) :
    overhangs bits count = .ok (((unpackBits bits).drop count).any id) := by
  unfold overhangs
  rw [bitWidth] at h
  split_ifs with hfull
  · rw [List.drop_of_length_le (by rw [length_unpackBits]; omega)]
    rfl
  · have hbits : bits ≠ [] := by
      rintro rfl
      rw [List.length_nil] at h
      omega
    have hinit : (unpackBits bits.dropLast).length = count - count % 8 := by
      rw [length_unpackBits, List.length_dropLast]
      omega
    have hlast : unpackBits bits =
        unpackBits bits.dropLast ++ lowBits 8 (bits.getLast hbits).toNat := by
      conv_lhs => rw [← List.dropLast_append_getLast hbits]
      simp [unpackBits]
    rw [List.getLast?_eq_getLast_of_ne_nil hbits, hlast, List.drop_append, hinit,
      List.drop_of_length_le (by omega), List.nil_append,
      show count - (count - count % 8) = count % 8 by omega, any_drop_lowBits,
      Nat.mod_eq_of_lt (bits.getLast hbits).toNat_lt]

namespace InclusionProof

/-- The step at an index: its sibling from a slice of the hashes, its side from its bit. -/
def stepAt (hashes bits : Bytes) (index : Nat) : Except Fault (Datum × Datum) := do
  let isLeft ← bitAt bits index
  return (.text (Side.ofBit isLeft).name, .bytes ((hashes.drop (32 * index)).take 32))

/-- The value that a byte string is read as, every step looked up at its own positions. -/
def decodeByPosition (data : Bytes) : Except Fault Datum :=
  match CompactSize.decode data with
  | .error fault =>
    .error (if fault.kind.isInvalidValue then .proofSize fault.message else fault)
  | .ok (count, offset) =>
    let width := offset + 32 * count + bitWidth count
    let bits := data.drop (offset + 32 * count)
    if maxProofDepth < count then .error (.proofDepth count)
    else if data.length ≠ width then .error (.proofWidth width count data.length)
    else do
      let steps ← (List.range count).mapM (stepAt (data.drop offset) bits)
      if ← overhangs bits count then .error .proofPadding
      else .ok (.proof true steps)

theorem slice_of_readHashes {count index : Nat} {hashes : Bytes} {siblings : List Bytes32}
    (h : readHashes count hashes = some siblings) (hindex : index < siblings.length) :
    (hashes.drop (32 * index)).take 32 = siblings[index].bytes := by
  induction count generalizing index hashes siblings with
  | zero =>
      cases h
      cases hindex
  | succ count ih =>
      simp only [readHashes, Option.bind_eq_bind, Option.bind_eq_some_iff] at h
      obtain ⟨first, hfirst, rest, hrest, hsiblings⟩ := h
      cases hsiblings
      cases index with
      | zero => exact (Bytes32.ofBytes?_eq_some_iff.mp hfirst).symm
      | succ index =>
          have hstart : 32 * (index + 1) = 32 + 32 * index := by omega
          rw [hstart, ← List.drop_drop]
          exact ih hrest (Nat.lt_of_succ_lt_succ hindex)

/-- No slice and no bit is missing of the steps that there are bits for. -/
theorem mapM_stepAt {count : Nat} {hashes bits : Bytes} {siblings : List Bytes32}
    (h : readHashes count hashes = some siblings) (hbits : count ≤ (unpackBits bits).length) :
    (List.range count).mapM (stepAt hashes bits) =
      .ok ((ofSiblings siblings (unpackBits bits)).steps.map Step.toData) := by
  have hlength := (eq_append_of_readHashes h).1
  have hstep : ∀ index (hindex : index < count), stepAt hashes bits index =
      .ok (Step.toData ⟨Side.ofBit ((unpackBits bits)[index]), siblings[index]⟩) := by
    intro index hindex
    rw [stepAt, bitAt_eq_ok (Nat.lt_of_lt_of_le hindex hbits),
      slice_of_readHashes h (hlength ▸ hindex)]
    rfl
  rw [mapM_eq_ok_iff, List.forall₂_iff_get]
  refine ⟨?_, fun index hrange _ => ?_⟩
  · rw [List.length_range, List.length_map, ofSiblings, List.length_zipWith, hlength,
      Nat.min_eq_left hbits]
  · rw [List.length_range] at hrange
    simp [ofSiblings, hstep index hrange]

/-- Position by position the same is read, and refused in the same words. -/
theorem decodeByPosition_eq (data : Bytes) : decodeByPosition data = (decode data).map toDatum := by
  unfold decodeByPosition decode
  cases CompactSize.decode data with
  | error fault => rfl
  | ok read =>
      obtain ⟨count, offset⟩ := read
      dsimp only
      by_cases hdepth : maxProofDepth < count
      · rw [if_pos hdepth, if_pos hdepth]
        rfl
      by_cases hwidth : data.length = offset + 32 * count + bitWidth count
      -- With the data as long as its number of steps asks, the slices and the bits are all there.
      · have hbits : (data.drop (offset + 32 * count)).length = bitWidth count := by
          rw [List.length_drop]
          omega
        obtain ⟨siblings, hsiblings⟩ := exists_readHashes count (data.drop offset) (by
          rw [List.length_drop]
          omega)
        have henough : count ≤ (unpackBits (data.drop (offset + 32 * count))).length := by
          rw [length_unpackBits, hbits, bitWidth]
          omega
        rw [if_neg hdepth, if_neg hdepth, if_neg (not_not.mpr hwidth), if_neg (not_not.mpr hwidth),
          mapM_stepAt hsiblings henough, hsiblings]
        simp only [bind, Except.bind, overhangs_eq_ok hbits]
        split_ifs <;> rfl
      · rw [if_neg hdepth, if_neg hdepth, if_pos hwidth, if_pos hwidth]
        rfl

end InclusionProof

end QuorumTree
