import Mathlib.Tactic.SplitIfs
import Mathlib.Data.List.Basic
import QuorumTree.CompactSize

/-!
Compact sizes are read exactly where they were written. Every encoding is a marker byte and as many
little-endian bytes as the marker announces, so writing and reading are inverse to each other at any
position of a stream, and whatever else is found there is refused as an invalid value.
-/

namespace QuorumTree.CompactSize

/-- The first byte of the encoding of a number. -/
def marker (n : Nat) : UInt8 :=
  if n < 0xfd then UInt8.ofNat n
  else if n ≤ 0xffff then 0xfd
  else if n ≤ 0xffffffff then 0xfe
  else 0xff

theorem ofNat_lt_marker {n : Nat} (hn : n < 0xfd) : UInt8.ofNat n < 0xfd := by
  rw [UInt8.lt_iff_toNat_lt, UInt8.toNat_ofNat', Nat.mod_eq_of_lt (by omega)]
  exact hn

/-- The one form that all four kinds of encoding have. -/
theorem encode_eq_marker_cons (n : Nat) :
    encode n = marker n :: Bytes.littleEndian (widthAfter (marker n)) n := by
  unfold encode marker
  split_ifs with h₁ h₂ h₃
  · simp [widthAfter, ofNat_lt_marker h₁, Bytes.littleEndian]
  · rfl
  · rfl
  · rfl

theorem length_encode (n : Nat) : (encode n).length = 1 + widthAfter (marker n) := by
  rw [encode_eq_marker_cons, List.length_cons, Bytes.length_littleEndian, Nat.add_comm]

theorem widthAfter_marker_eq_zero_iff (n : Nat) : widthAfter (marker n) = 0 ↔ n < 0xfd := by
  unfold marker
  split_ifs with h₁ h₂ h₃
  · simp [widthAfter, ofNat_lt_marker h₁, h₁]
  · simp [show widthAfter 0xfd = 2 from rfl, h₁]
  · simp [show widthAfter 0xfe = 4 from rfl, h₁]
  · simp [show widthAfter 0xff = 8 from rfl, h₁]

/-- The bytes after the marker are wide enough for every number below 2^64. -/
theorem lt_pow_widthAfter_marker {n : Nat} (hn : n < 2 ^ 64) (hwide : ¬ n < 0xfd) :
    n < 256 ^ widthAfter (marker n) := by
  unfold marker
  split_ifs with h₂ h₃
  · simp only [show widthAfter 0xfd = 2 from rfl]
    omega
  · simp only [show widthAfter 0xfe = 4 from rfl]
    omega
  · simp only [show widthAfter 0xff = 8 from rfl]
    omega

/-- A marker that announces further bytes is known from how many it announces. -/
theorem marker_eq_of_widthAfter_eq {n : Nat} {first : UInt8}
    (hwidth : widthAfter (marker n) = widthAfter first) (hwide : widthAfter first ≠ 0) :
    marker n = first := by
  have hlarge : ¬ n < 0xfd := by
    rw [← widthAfter_marker_eq_zero_iff, hwidth]
    exact hwide
  have hlast : first ≠ 0xfd → first ≠ 0xfe → ¬ first < 0xfd → first = 0xff := by
    intro h₁ h₂ h₃
    have hbound := first.toNat_lt
    rw [UInt8.lt_iff_toNat_lt] at h₃
    rw [ne_eq, ← UInt8.toNat_inj] at h₁ h₂
    rw [← UInt8.toNat_inj]
    simp only [UInt8.reduceToNat] at *
    omega
  unfold marker at hwidth ⊢
  rw [if_neg hlarge] at hwidth ⊢
  revert hwidth hwide
  unfold widthAfter
  split_ifs <;> simp_all

theorem place_of_nonneg (length : Nat) {position : Int} (h : 0 ≤ position) :
    place length position = position.toNat :=
  if_neg (by omega)

theorem slice_append (before tail : Bytes) (first : UInt8) (count : Nat) :
    slice (before ++ first :: tail) (before.length + 1) (before.length + 1 + count) =
      tail.take count := by
  have hfirst : ((before.length : Int) + 1).toNat = (before ++ [first]).length := by simp
  have hlast : ((before.length : Int) + 1 + count).toNat = (before ++ [first]).length + count := by
    simp
    omega
  rw [slice, place_of_nonneg _ (by omega), place_of_nonneg _ (by omega), hfirst, hlast,
    List.append_cons before first tail, List.take_length_add_append, List.drop_left]

/-- The number spelled by as many bytes of `tail` as a marker announces. -/
def valueAfter (first : UInt8) (tail : Bytes) : Nat :=
  Bytes.ofLittleEndian (tail.take (widthAfter first))

/-- What is read at a position depends on the byte there and on what follows it. -/
theorem decodeAt_append_cons (before tail : Bytes) (first : UInt8) :
    decodeAt (before ++ first :: tail) before.length =
      if widthAfter first = 0 then .ok (first.toNat, before.length + 1)
      else if tail.length < widthAfter first then .error .truncatedSize
      else if (encode (valueAfter first tail)).length = 1 + widthAfter first then
        .ok (valueAfter first tail, before.length + 1 + widthAfter first)
      else .error (.overlongSize (valueAfter first tail)) := by
  have hlength : (before ++ first :: tail).length = before.length + (tail.length + 1) := by simp
  have hfirst : (before ++ first :: tail)[before.length]? = some first := by simp
  unfold decodeAt
  rw [if_neg (by rw [hlength]; omega), if_neg (by omega), place_of_nonneg _ (by omega),
    Int.toNat_natCast, hfirst]
  dsimp only
  rw [slice_append, ← valueAfter]
  split_ifs with hzero hshort₁ hshort₂ <;> first | rfl | omega | simp [hzero]

theorem decodeAt_of_length_le {data : Bytes} {offset : Nat} (h : data.length ≤ offset) :
    decodeAt data offset = .error .truncatedSize := by
  unfold decodeAt
  rw [if_pos (by omega)]

/-- A number is read back wherever it was written. -/
theorem decodeAt_append {value : Nat} (hvalue : value < 2 ^ 64) (before rest : Bytes) :
    decodeAt (before ++ encode value ++ rest) before.length =
      .ok (value, before.length + (encode value).length) := by
  rw [List.append_assoc, encode_eq_marker_cons, List.cons_append, decodeAt_append_cons]
  by_cases hsmall : value < 0xfd
  · have hzero := (widthAfter_marker_eq_zero_iff value).mpr hsmall
    have hmarker : marker value = UInt8.ofNat value := if_pos hsmall
    have hread : (UInt8.ofNat value).toNat = value := by
      rw [UInt8.toNat_ofNat', Nat.mod_eq_of_lt (by omega)]
    rw [if_pos hzero, hzero, hmarker, hread]
    rfl
  · have hwide := lt_pow_widthAfter_marker hvalue hsmall
    have hread : valueAfter (marker value)
        (Bytes.littleEndian (widthAfter (marker value)) value ++ rest) = value := by
      rw [valueAfter, List.take_left' (Bytes.length_littleEndian _ _),
        Bytes.ofLittleEndian_littleEndian, Nat.mod_eq_of_lt hwide]
    rw [if_neg (mt (widthAfter_marker_eq_zero_iff value).mp hsmall),
      if_neg (by rw [List.length_append, Bytes.length_littleEndian]; omega), hread,
      if_pos (length_encode value), List.length_cons, Bytes.length_littleEndian]
    congr 2
    omega

/-- Nothing is read but what was written: the bytes taken are the encoding of the answer. -/
theorem eq_append_of_decodeAt {data : Bytes} (offset : Nat) {value : Nat} {last : Int}
    (h : decodeAt data offset = .ok (value, last)) :
    ∃ before rest, data = before ++ encode value ++ rest ∧ before.length = offset ∧
      last = offset + (encode value).length ∧ value < 2 ^ 64 := by
  have hoffset : offset < data.length := by
    by_contra hbeyond
    rw [decodeAt_of_length_le (by omega)] at h
    cases h
  obtain ⟨before, first, tail, rfl, rfl⟩ :
      ∃ before first tail, data = before ++ first :: tail ∧ before.length = offset :=
    ⟨data.take offset, data[offset], data.drop (offset + 1), by simp, by simp; omega⟩
  rw [decodeAt_append_cons] at h
  split_ifs at h with hzero hshort hlength
  · cases h
    have hmarker : marker first.toNat = first := by
      have hsmall : first.toNat < 0xfd := by
        unfold widthAfter at hzero
        split_ifs at hzero with hlt
        exact UInt8.lt_iff_toNat_lt.mp hlt
      simp [marker, hsmall]
    have hencode : encode first.toNat = [first] := by
      rw [encode_eq_marker_cons, hmarker, hzero]
      rfl
    exact ⟨before, tail, by simp [hencode], rfl, by simp [hencode],
      Nat.lt_trans first.toNat_lt (by decide)⟩
  · cases h
    have hbytes : (tail.take (widthAfter first)).length = widthAfter first := by
      rw [List.length_take]
      omega
    have hmarker : marker (valueAfter first tail) = first := by
      rw [length_encode] at hlength
      exact marker_eq_of_widthAfter_eq (by omega) hzero
    have hencode : encode (valueAfter first tail) = first :: tail.take (widthAfter first) := by
      have hback := Bytes.littleEndian_ofLittleEndian (tail.take (widthAfter first))
      rw [hbytes] at hback
      rw [encode_eq_marker_cons, hmarker, valueAfter, hback]
    have hbound := Bytes.ofLittleEndian_lt (tail.take (widthAfter first))
    refine ⟨before, tail.drop (widthAfter first), ?_, rfl, ?_, ?_⟩
    · rw [hencode, List.append_assoc, List.cons_append, List.take_append_drop]
    · rw [hlength]
      omega
    · refine Nat.lt_of_lt_of_le hbound ?_
      rw [hbytes]
      unfold widthAfter
      split_ifs <;> decide

/-- What cannot be read is refused as an invalid value. -/
theorem kind_of_decodeAt_eq_error {data : Bytes} (offset : Nat) {fault : Fault}
    (h : decodeAt data offset = .error fault) : fault.kind = .value := by
  by_cases hoffset : offset < data.length
  · obtain ⟨before, first, tail, rfl, rfl⟩ :
        ∃ before first tail, data = before ++ first :: tail ∧ before.length = offset :=
      ⟨data.take offset, data[offset], data.drop (offset + 1), by simp, by simp; omega⟩
    rw [decodeAt_append_cons] at h
    split_ifs at h <;> cases h <;> rfl
  · rw [decodeAt_of_length_le (by omega)] at h
    cases h
    rfl

theorem decode_append {value : Nat} (hvalue : value < 2 ^ 64) (rest : Bytes) :
    decode (encode value ++ rest) = .ok (value, (encode value).length) := by
  have hread := decodeAt_append hvalue [] rest
  simp only [List.nil_append, List.length_nil, Int.natCast_zero, Int.zero_add] at hread
  simp [decode, hread, Except.map]

theorem eq_append_of_decode {data : Bytes} {value width : Nat}
    (h : decode data = .ok (value, width)) :
    ∃ rest, data = encode value ++ rest ∧ width = (encode value).length ∧ value < 2 ^ 64 := by
  unfold decode at h
  cases hread : decodeAt data 0 with
  | error fault => simp [hread, Except.map] at h
  | ok read =>
      obtain ⟨found, last⟩ := read
      simp only [hread, Except.map, Except.ok.injEq, Prod.mk.injEq] at h
      obtain ⟨rfl, rfl⟩ := h
      obtain ⟨before, rest, hdata, hbefore, hlast, hbound⟩ := eq_append_of_decodeAt 0 hread
      rw [List.length_eq_zero_iff.mp hbefore, List.nil_append] at hdata
      exact ⟨rest, hdata, by omega, hbound⟩

theorem kind_of_decode_eq_error {data : Bytes} {fault : Fault} (h : decode data = .error fault) :
    fault.kind = .value := by
  unfold decode at h
  cases hread : decodeAt data 0 with
  | error found =>
      simp only [hread, Except.map, Except.error.injEq] at h
      subst h
      exact kind_of_decodeAt_eq_error 0 hread
  | ok read => simp [hread, Except.map] at h

/-! ### The codec on streams -/

theorem ofLength_whole (n : Int) :
    ofLength (.whole n) =
      if n < 0 then .error (.telling [.whole n] (.negativeLength (.whole n)))
      else if n < 2 ^ 64 then .ok (encode n.toNat) else .error .lengthTooWide := by
  simp only [ofLength, Number.whole_lt_whole, decide_eq_true_eq, Number.toInt?]

theorem ofLength_eq_ok_iff {n : Int} {bytes : Bytes} :
    ofLength (.whole n) = .ok bytes ↔ (0 ≤ n ∧ n < 2 ^ 64) ∧ encode n.toNat = bytes := by
  rw [ofLength_whole]
  split_ifs with hneg hbound
  · simp only [false_iff]
    omega
  · simp only [Except.ok.injEq, hbound, Int.not_lt.mp hneg, and_self, true_and]
  · simp only [false_iff]
    omega

theorem ofLength_eq_error_iff {n : Int} :
    (∃ fault, ofLength (.whole n) = .error fault) ↔ n < 0 ∨ 2 ^ 64 ≤ n := by
  rw [ofLength_whole]
  split_ifs with hneg hbound
  · simp [hneg]
  · simp only [exists_false, false_iff]
    omega
  · simp only [Except.error.injEq, exists_eq', true_iff]
    omega

/-- What stands between two parts of a stream is cut out by their positions. -/
theorem slice_append_append (before middle rest : Bytes) :
    slice (before ++ middle ++ rest) before.length (before.length + middle.length : Nat) = middle := by
  rw [slice, place_of_nonneg _ (by omega), place_of_nonneg _ (by omega), Int.toNat_natCast,
    Int.toNat_natCast, ← List.length_append, List.take_left, List.drop_left]

/-- No encoding opens that of another number. -/
theorem eq_of_encode_prefix {n n' : Nat} (hn : n < 2 ^ 64) (hn' : n' < 2 ^ 64)
    (h : encode n <+: encode n') : n = n' := by
  obtain ⟨rest, hrest⟩ := h
  have hread := decode_append hn rest
  have hread' := decode_append hn' []
  rw [List.append_nil, ← hrest, hread] at hread'
  simp only [Except.ok.injEq, Prod.mk.injEq] at hread'
  exact hread'.1

/-- At a position of a stream either a number is read, and the bytes taken are its encoding, or
nothing is. -/
theorem decodeAt_cases (data : Bytes) (offset : Nat) :
    (∃ value last : Nat, decodeAt data offset = .ok (value, (last : Int)) ∧ offset < last ∧
        last ≤ data.length ∧ value < 2 ^ 64 ∧ encode value = slice data offset last) ∨
      ∃ fault, decodeAt data offset = .error fault ∧ fault.kind = .value := by
  cases hread : decodeAt data offset with
  | error fault => exact .inr ⟨fault, rfl, kind_of_decodeAt_eq_error offset hread⟩
  | ok read =>
      obtain ⟨value, last⟩ := read
      obtain ⟨before, rest, rfl, rfl, rfl, hbound⟩ := eq_append_of_decodeAt offset hread
      have hlength := length_encode value
      refine .inl ⟨value, before.length + (encode value).length, rfl, by omega, ?_, hbound,
        (slice_append_append before (encode value) rest).symm⟩
      simp

/-- The codec of compact sizes. The whole numbers that have an encoding are those from zero up to
2^64. An encoding is read back wherever it stands in a stream, whatever is before and behind it, and
it opens that of no other number. At any position of any stream a number is read whose encoding the
bytes taken are, or the bytes are refused as an invalid value. -/
theorem codec_exact :
    (∀ n : Int, (∃ fault, ofLength (.whole n) = .error fault) ↔ n < 0 ∨ 2 ^ 64 ≤ n) ∧
      (∀ (n : Nat) (bytes : Bytes), ofLength (.whole n) = .ok bytes →
        (∀ before rest : Bytes, decodeAt (before ++ bytes ++ rest) before.length =
          .ok (n, (before.length : Int) + bytes.length)) ∧
        ∀ (n' : Nat) (bytes' : Bytes), ofLength (.whole n') = .ok bytes' → bytes <+: bytes' →
          n = n') ∧
      ∀ (data : Bytes) (offset : Nat),
        (∃ n last : Nat, decodeAt data offset = .ok (n, (last : Int)) ∧ offset < last ∧
          last ≤ data.length ∧ ofLength (.whole n) = .ok (slice data offset last)) ∨
        ∃ fault, decodeAt data offset = .error fault ∧ fault.kind = .value := by
  refine ⟨fun n => ofLength_eq_error_iff, fun n bytes h => ?_, fun data offset => ?_⟩
  · obtain ⟨⟨-, hbound⟩, rfl⟩ := ofLength_eq_ok_iff.mp h
    have hn : n < 2 ^ 64 := by omega
    refine ⟨decodeAt_append hn, fun n' bytes' h' hprefix => ?_⟩
    obtain ⟨⟨-, hbound'⟩, rfl⟩ := ofLength_eq_ok_iff.mp h'
    exact eq_of_encode_prefix hn (by omega) hprefix
  · refine (decodeAt_cases data offset).imp_left ?_
    rintro ⟨n, last, hread, hpast, hwithin, hbound, hbytes⟩
    exact ⟨n, last, hread, hpast, hwithin, ofLength_eq_ok_iff.mpr ⟨by omega, hbytes⟩⟩

/-- The least number of three bytes, between two others. -/
theorem codec_exact_of_253 :
    ofLength (.whole 0xfd) = .ok [0xfd, 0xfd, 0x00] ∧
      decodeAt [0x07, 0xfd, 0xfd, 0x00, 0x09] 1 = .ok (0xfd, 4) := by
  have hwritten : ofLength (.whole 0xfd) = .ok [0xfd, 0xfd, 0x00] := rfl
  exact ⟨hwritten, (codec_exact.2.1 0xfd _ hwritten).1 [0x07] [0x09]⟩

end QuorumTree.CompactSize
