import Mathlib.Data.List.Basic
import QuorumTree.Proof.Codec

/-!
Bits packed into bytes come back in order, followed by the zeros that fill the last byte, and every
byte string is the packing of its own bits.
-/

namespace QuorumTree

@[simp] theorem length_lowBits (count n : Nat) : (lowBits count n).length = count := by
  induction count generalizing n with
  | zero => rfl
  | succ count ih => simp [lowBits, ih]

theorem ofBits_lowBits (count n : Nat) : ofBits (lowBits count n) = n % 2 ^ count := by
  induction count generalizing n with
  | zero => simp [lowBits, ofBits, Nat.mod_one]
  | succ count ih =>
      have hbit : (n % 2 == 1).toNat = n % 2 := by
        rcases Nat.mod_two_eq_zero_or_one n with h | h <;> simp [h]
      rw [lowBits, ofBits, ih, hbit, Nat.pow_succ, Nat.mul_comm (2 ^ count) 2, Nat.mod_mul]

theorem ofBits_lt (bits : List Bool) : ofBits bits < 2 ^ bits.length := by
  induction bits with
  | nil => simp [ofBits]
  | cons bit bits ih =>
      have hbit := bit.toNat_le
      rw [ofBits, List.length_cons, Nat.pow_succ]
      omega

/-- Zeros at the high end do not change the number. -/
theorem ofBits_append_replicate_false (bits : List Bool) (count : Nat) :
    ofBits (bits ++ List.replicate count false) = ofBits bits := by
  induction bits with
  | nil =>
      induction count with
      | zero => rfl
      | succ count ih =>
          rw [List.nil_append] at ih
          simp [List.replicate_succ, ofBits, ih]
  | cons bit bits ih => rw [List.cons_append, ofBits, ofBits, ih]

theorem lowBits_ofBits {bits : List Bool} {count : Nat} (h : bits.length ≤ count) :
    lowBits count (ofBits bits) = bits ++ List.replicate (count - bits.length) false := by
  induction count generalizing bits with
  | zero =>
      rw [List.length_eq_zero_iff.mp (Nat.le_zero.mp h)]
      rfl
  | succ count ih =>
      cases bits with
      | nil =>
          have hrest := @ih [] (Nat.zero_le count)
          simpa [ofBits, lowBits, List.replicate_succ] using hrest
      | cons bit bits =>
          have hhead : (bit.toNat + 2 * ofBits bits) % 2 = bit.toNat := by
            have hbit := bit.toNat_le
            omega
          have htail : (bit.toNat + 2 * ofBits bits) / 2 = ofBits bits := by
            have hbit := bit.toNat_le
            omega
          have hrest := @ih bits (by simpa using h)
          rw [ofBits, lowBits, hhead, htail, hrest]
          cases bit <;> simp

@[simp] theorem length_packBits (width : Nat) (bits : List Bool) :
    (packBits width bits).length = width := by
  induction width generalizing bits with
  | zero => rfl
  | succ width ih => simp [packBits, ih]

@[simp] theorem length_unpackBits (bytes : Bytes) :
    (unpackBits bytes).length = 8 * bytes.length := by
  induction bytes with
  | nil => rfl
  | cons b bytes ih =>
      simp only [unpackBits, List.flatMap_cons, List.length_append, length_lowBits,
        List.length_cons] at ih ⊢
      omega

theorem toNat_ofNat_ofBits {bits : List Bool} (h : bits.length ≤ 8) :
    (UInt8.ofNat (ofBits bits)).toNat = ofBits bits := by
  have hbound : ofBits bits < 2 ^ 8 :=
    Nat.lt_of_lt_of_le (ofBits_lt bits) (Nat.pow_le_pow_right (by decide) h)
  rw [UInt8.toNat_ofNat', Nat.mod_eq_of_lt hbound]

/-- Packed bits come back in order, and after them the zeros that fill the last byte. -/
theorem unpackBits_packBits {bits : List Bool} {width : Nat} (h : bits.length ≤ 8 * width) :
    unpackBits (packBits width bits) =
      bits ++ List.replicate (8 * width - bits.length) false := by
  induction width generalizing bits with
  | zero =>
      rw [List.length_eq_zero_iff.mp (Nat.le_zero.mp h)]
      rfl
  | succ width ih =>
      have hfirst : (bits.take 8).length ≤ 8 := List.length_take_le 8 bits
      have hrest := @ih (bits.drop 8) (by rw [List.length_drop]; omega)
      simp only [unpackBits] at hrest
      rw [unpackBits, packBits, List.flatMap_cons, hrest, toNat_ofNat_ofBits hfirst,
        lowBits_ofBits hfirst]
      -- With at most eight bits left this byte holds them all, and only zeros follow.
      by_cases hshort : bits.length ≤ 8
      · rw [List.take_of_length_le hshort, List.drop_of_length_le hshort, List.nil_append,
          List.append_assoc, List.replicate_append_replicate]
        congr 2
        simp
        omega
      · rw [List.length_take, List.length_drop, Nat.min_eq_left (by omega), Nat.sub_self,
          List.replicate_zero, List.append_nil, ← List.append_assoc, List.take_append_drop]
        congr 2
        omega

/-- Every byte string is the packing of its bits. -/
theorem packBits_unpackBits (bytes : Bytes) : packBits bytes.length (unpackBits bytes) = bytes := by
  induction bytes with
  | nil => rfl
  | cons b bytes ih =>
      have hb : UInt8.ofNat (ofBits (lowBits 8 b.toNat)) = b := by
        rw [ofBits_lowBits, Nat.mod_eq_of_lt b.toNat_lt, UInt8.ofNat_toNat]
      rw [unpackBits, List.flatMap_cons, List.length_cons, packBits,
        List.take_left' (length_lowBits 8 _), List.drop_left' (length_lowBits 8 _), hb]
      exact congrArg (b :: ·) ih

/-- Zeros after the bits make no difference to the bytes. -/
theorem packBits_append_replicate_false (width : Nat) (bits : List Bool) (count : Nat) :
    packBits width (bits ++ List.replicate count false) = packBits width bits := by
  induction width generalizing bits count with
  | zero => rfl
  | succ width ih =>
      rw [packBits, packBits, List.take_append, List.drop_append, List.take_replicate,
        List.drop_replicate, ofBits_append_replicate_false, ih]

/-- Bytes whose bits after the first `count` are all zero are the packing of those first bits. -/
theorem packBits_take_unpackBits {bytes : Bytes} {count : Nat}
    (h : ((unpackBits bytes).drop count).any id = false) :
    packBits bytes.length ((unpackBits bytes).take count) = bytes := by
  have hzeros : (unpackBits bytes).drop count =
      List.replicate ((unpackBits bytes).drop count).length false := by
    rw [List.eq_replicate_iff]
    refine ⟨rfl, fun bit hbit => ?_⟩
    simpa using List.any_eq_false.mp h bit hbit
  calc
    packBits bytes.length ((unpackBits bytes).take count)
      = packBits bytes.length ((unpackBits bytes).take count ++ (unpackBits bytes).drop count) := by
        rw [hzeros, packBits_append_replicate_false]
    _ = bytes := by rw [List.take_append_drop, packBits_unpackBits]

end QuorumTree
