import QuorumTree.Proofs.PublicKey
import QuorumTree.Proofs.Refusal

/-!
The forms in which keys are given. A key is read from every one of its own forms, as bytes or as
their hexadecimal text; and a value of a kind that keys are given in is refused as a key, and never
for another reason.
-/

namespace QuorumTree

/-- The value is of a kind that keys are given in. -/
inductive Datum.IsKeyLike : Datum → Prop
  | key (key : PublicKey) : IsKeyLike (.key key)
  | bytes (bytes : Bytes) : IsKeyLike (.bytes bytes)
  | text (text : String) : IsKeyLike (.text text)

namespace PublicKey

/-- Both coordinates after a tag. -/
def uncompressed (key : PublicKey) (tag : UInt8) : Bytes :=
  tag :: (key.xOnly.bytes ++ (Bytes32.ofNat key.y.val).bytes)

/-- The byte strings that spell a key: compressed, uncompressed or hybrid, or x alone where y is
even. -/
inductive IsSpelled (key : PublicKey) : Bytes → Prop
  | compressed : IsSpelled key key.bytes
  | uncompressed {tag : UInt8} :
      (tag = 0x04 ∨ tag = if key.hasEvenY then 0x06 else 0x07) →
        IsSpelled key (key.uncompressed tag)
  | xOnly : key.hasEvenY = true → IsSpelled key key.xOnly.bytes

/-- The values that denote a key: itself, what spells it, and hexadecimal text of that. -/
inductive IsForm (key : PublicKey) : Datum → Prop
  | key : IsForm key (.key key)
  | bytes {bytes : Bytes} : key.IsSpelled bytes → IsForm key (.bytes bytes)
  | text {text : String} {bytes : Bytes} :
      Hex.decodeSpaced text = .ok bytes → key.IsSpelled bytes → IsForm key (.text text)

variable {key : PublicKey}

/-! ### Reading -/

theorem length_uncompressed (key : PublicKey) (tag : UInt8) :
    (key.uncompressed tag).length = 65 := by
  simp [uncompressed, Bytes32.length_bytes]

theorem ofUncompressed?_uncompressed {tag : UInt8}
    (h : tag = 0x04 ∨ tag = if key.hasEvenY then 0x06 else 0x07) :
    ofUncompressed? (key.uncompressed tag) = some key := by
  have hlength : (key.xOnly.bytes ++ (Bytes32.ofNat key.y.val).bytes).length = 64 := by
    rw [List.length_append, Bytes32.length_bytes, Bytes32.length_bytes]
  have hx : (key.xOnly.bytes ++ (Bytes32.ofNat key.y.val).bytes).take 32 = key.xOnly.bytes :=
    List.take_left' key.xOnly.length_bytes
  have hy : (key.xOnly.bytes ++ (Bytes32.ofNat key.y.val).bytes).drop 32 =
      (Bytes32.ofNat key.y.val).bytes := List.drop_left' key.xOnly.length_bytes
  rw [uncompressed, ofUncompressed?, if_pos hlength, hx, hy, coordinate?_xOnly, coordinate?_ofNat]
  change (ofCoordinates? key.x key.y).bind _ = some key
  rw [ofCoordinates?_self, Option.bind_some, if_pos h]

theorem IsSpelled.ofBytes_eq_ok {bytes : Bytes} (h : key.IsSpelled bytes) :
    ofBytes bytes = .ok key := by
  cases h with
  | compressed => exact key.ofBytes_bytes
  | uncompressed htag =>
      have hlength := key.length_uncompressed ‹UInt8›
      rw [ofBytes, if_neg (by omega), if_neg (by omega), if_pos hlength,
        ofUncompressed?_uncompressed htag]
  | xOnly heven =>
      have hbytes : key.bytes = 0x02 :: key.xOnly.bytes := by
        rw [PublicKey.bytes, heven]
        rfl
      rw [ofBytes, if_pos key.xOnly.length_bytes, ← hbytes, ofCompressed_bytes]

theorem ofDatum_bytes [Machine] (bytes : Bytes) : ofDatum (.bytes bytes) = ofBytes bytes := by
  change (if bytes.length = 32 ∨ bytes.length = 33 ∨ bytes.length = 65 then ofBytes bytes
    else .error (.keyLength bytes.length)) = ofBytes bytes
  split_ifs with h
  · rfl
  · rw [not_or, not_or] at h
    rw [ofBytes, if_neg h.1, if_neg h.2.1, if_neg h.2.2]

theorem ofDatum_text [Machine] (text : String) : ofDatum (.text text) = ofHex text := rfl

/-- Whatever denotes a key is read as the key. -/
theorem IsForm.ofDatum_eq_ok [Machine] {value : Datum} (h : key.IsForm value) :
    ofDatum value = .ok key := by
  cases h with
  | key => rfl
  | bytes hbytes =>
      rw [ofDatum_bytes]
      exact hbytes.ofBytes_eq_ok
  | text htext hbytes =>
      rw [ofDatum_text, ofHex, htext]
      exact hbytes.ofBytes_eq_ok

/-! ### Refusals -/

theorem refusesOnly_ofCompressed (bytes : Bytes) :
    RefusesOnly (·.kind = .publicKey) (ofCompressed bytes) := by
  unfold ofCompressed
  split
  · exact .error rfl
  · split_ifs
    · exact .error rfl
    · split
      · exact .ok _
      · exact .error rfl

theorem refusesOnly_ofBytes (bytes : Bytes) :
    RefusesOnly (·.kind = .publicKey) (ofBytes bytes) := by
  unfold ofBytes
  split_ifs
  · exact refusesOnly_ofCompressed _
  · exact refusesOnly_ofCompressed _
  · split
    · exact .ok _
    · exact .error rfl
  · exact .error rfl

theorem refusesOnly_ofHex (text : String) : RefusesOnly (·.kind = .publicKey) (ofHex text) := by
  unfold ofHex
  split
  · exact refusesOnly_ofBytes _
  · exact .error rfl

end PublicKey

theorem Datum.IsKeyLike.refusesOnly_ofDatum [Machine] {value : Datum} (h : value.IsKeyLike) :
    RefusesOnly (·.kind = .publicKey) (PublicKey.ofDatum value) := by
  cases h with
  | key key => exact .ok key
  | bytes bytes =>
      rw [PublicKey.ofDatum_bytes]
      exact PublicKey.refusesOnly_ofBytes bytes
  | text text => exact PublicKey.refusesOnly_ofHex text

/-! ### Numbers for keys

A number is taken for so many zeros, which are no key. Only a number of zeros that cannot be held is
refused for another reason. -/

namespace Datum

variable [Machine]

/-- The number stands for more zeros than can be counted, or for more than the machine holds. -/
def Overflows (count : Int) (fault : Fault) : Prop :=
  (fault = .countTooWide ∧ (count < -2 ^ 63 ∨ 2 ^ 63 - 34 < count)) ∨
    (fault = .outOfMemory ∧ 0 ≤ count ∧ count ≤ 2 ^ 63 - 34 ∧
      Machine.holdsZeros count.toNat = false)

theorem zeroCount_eq_error_iff {count : Int} {fault : Fault} :
    zeroCount count = .error fault ↔
      Overflows count fault ∨ (fault = .negativeCount ∧ -2 ^ 63 ≤ count ∧ count < 0) := by
  unfold zeroCount Overflows
  split_ifs <;> grind

theorem Overflows.isExpected_eq_false {count : Int} {fault : Fault} (h : Overflows count fault) :
    fault.kind.isExpected = false := by
  rcases h with ⟨rfl, -⟩ | ⟨rfl, -⟩ <;> rfl

/-- What counts is refused as a key for a value that does not qualify, or because it overflows. -/
theorem refused_of_toInt? {value : Datum} {count : Int} (hvalue : value.toInt? = some count)
    {fault : Fault} (h : PublicKey.ofDatum value = .error fault) :
    fault.kind.isInvalidValue = true ∨ value = .int count ∧ Overflows count fault := by
  cases value with
  | number number =>
      cases number with
      | truth value =>
          left
          cases value <;> cases h <;> rfl
      | whole n =>
          cases hvalue
          simp only [PublicKey.ofDatum, PublicKey.ofByteDatum, byteLength, bind_eq_error_iff] at h
          rcases h with hcount | ⟨width, hcount, h⟩
          · rcases zeroCount_eq_error_iff.mp hcount with hoverflows | ⟨rfl, -⟩
            · exact .inr ⟨rfl, hoverflows⟩
            · exact .inl rfl
          · left
            split_ifs at h
            · simp only [toBytes, hcount, Except.map, bind_eq_error_iff, reduceCtorEq, false_or,
                Except.ok.injEq, exists_eq_left'] at h
              rw [PublicKey.refusesOnly_ofBytes _ fault h]
              rfl
            · cases h
              rfl
      | real value => cases hvalue
  | _ => cases hvalue

end Datum

end QuorumTree
