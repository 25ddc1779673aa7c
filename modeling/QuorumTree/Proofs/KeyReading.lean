import QuorumTree.Proofs.KeyForms
import QuorumTree.Proofs.KeyPoint

/-!
Reading keys. A byte string denotes at most one point of the curve, and it is read as the key of
that point or, where it denotes none, refused; so keys are equal exactly where what they were read
from denotes one point. No point has a zero y-coordinate, so a point and its negative differ in
parity, and every x-coordinate of a key has an even y.
-/

namespace QuorumTree

theorem Bytes.bigEndian_ofBigEndian (bytes : Bytes) :
    bigEndian bytes.length (ofBigEndian bytes) = bytes := by
  rw [bigEndian, ofBigEndian, ← List.length_reverse, littleEndian_ofLittleEndian,
    List.reverse_reverse]

/-- The bytes are a number in thirty-two bytes, most significant first. -/
def Bytes.Spells (bytes : Bytes) (a : ZMod fieldPrime) : Prop :=
  bytes.length = 32 ∧ Bytes.ofBigEndian bytes = a.val

/-- The tag of a compressed form goes with the parity of `y`. -/
def CompressedTag (tag : UInt8) (y : ZMod fieldPrime) : Prop :=
  tag = 0x02 ∧ y.val % 2 = 0 ∨ tag = 0x03 ∧ y.val % 2 = 1

/-- The tag of both coordinates says nothing of `y`, or its parity. -/
def UncompressedTag (tag : UInt8) (y : ZMod fieldPrime) : Prop :=
  tag = 0x04 ∨ tag = 0x06 ∧ y.val % 2 = 0 ∨ tag = 0x07 ∧ y.val % 2 = 1

/-- The point of the curve that a byte string denotes: x alone stands for the point with an even y,
and otherwise a tag tells what follows. -/
inductive Bytes.Denotes : Bytes → secp256k1.Point → Prop
  | xOnly {bytes : Bytes} {x y : ZMod fieldPrime} (h : secp256k1.Nonsingular x y) :
      bytes.Spells x → y.val % 2 = 0 → Denotes bytes (.some x y h)
  | compressed {tag : UInt8} {bytes : Bytes} {x y : ZMod fieldPrime}
      (h : secp256k1.Nonsingular x y) :
      CompressedTag tag y → bytes.Spells x → Denotes (tag :: bytes) (.some x y h)
  | uncompressed {tag : UInt8} {xBytes yBytes : Bytes} {x y : ZMod fieldPrime}
      (h : secp256k1.Nonsingular x y) :
      UncompressedTag tag y → xBytes.Spells x → yBytes.Spells y →
        Denotes (tag :: (xBytes ++ yBytes)) (.some x y h)

/-! ### Coordinates -/

namespace Coordinate

theorem toZMod_surjective : Function.Surjective toZMod :=
  fun a => ⟨⟨a.val, a.val_lt⟩, ZMod.natCast_zmod_val a⟩

theorem val_neg {a : Coordinate} (h : a ≠ 0) : (-a).val = fieldPrime - a.val := by
  have hval : (-a).val = (fieldPrime - a.val) % fieldPrime := rfl
  have hpos : a.val ≠ 0 := fun hzero => h (Fin.ext hzero)
  rw [hval, Nat.mod_eq_of_lt (by omega)]

/-- The prime is odd. -/
theorem isEven_neg {a : Coordinate} (h : a ≠ 0) : (-a).isEven = !a.isEven := by
  have hodd := fieldPrime_mod_two
  have hlt := a.isLt
  have hmod : (fieldPrime - a.val) % 2 = 0 ↔ a.val % 2 ≠ 0 := by omega
  rw [isEven, isEven, val_neg h, Bool.eq_iff_iff]
  simpa using hmod

theorem isEven_iff {a : Coordinate} : a.isEven = true ↔ a.toZMod.val % 2 = 0 := by
  rw [isEven, val_toZMod, beq_iff_eq]

end Coordinate

theorem Bytes.spells_iff {bytes : Bytes} {a : Coordinate} :
    bytes.Spells a.toZMod ↔ bytes = (Bytes32.ofNat a.val).bytes := by
  rw [Spells, Coordinate.val_toZMod]
  constructor
  · rintro ⟨hlength, hvalue⟩
    have hspelled := bigEndian_ofBigEndian bytes
    rw [hlength, hvalue] at hspelled
    exact hspelled.symm
  · rintro rfl
    exact ⟨Bytes32.length_bytes _, ofBigEndian_ofNat_val a⟩

theorem compressedTag_iff {tag : UInt8} {y : Coordinate} :
    CompressedTag tag y.toZMod ↔ tag = PublicKey.parityTag y.isEven := by
  unfold CompressedTag PublicKey.parityTag Coordinate.isEven
  rw [Coordinate.val_toZMod]
  rcases Nat.mod_two_eq_zero_or_one y.val with h | h <;> simp [h]

theorem uncompressedTag_iff {tag : UInt8} {y : Coordinate} :
    UncompressedTag tag y.toZMod ↔ tag = 0x04 ∨ tag = if y.isEven then 0x06 else 0x07 := by
  unfold UncompressedTag Coordinate.isEven
  rw [Coordinate.val_toZMod]
  rcases Nat.mod_two_eq_zero_or_one y.val with h | h <;> simp [h]

namespace PublicKey

variable {key : PublicKey} {bytes : Bytes}

/-- A byte string denotes a point exactly where it spells the key of the point. -/
theorem denotes_iff {P : secp256k1.Point} :
    bytes.Denotes P ↔ ∃ key : PublicKey, key.toCurve = P ∧ key.IsSpelled bytes := by
  constructor
  · intro h
    cases h with
    | @xOnly _ x y h hx heven =>
        obtain ⟨x, rfl⟩ := Coordinate.toZMod_surjective x
        obtain ⟨y, rfl⟩ := Coordinate.toZMod_surjective y
        refine ⟨⟨x, y, Point.onCurve_iff.mpr h⟩, rfl, ?_⟩
        rw [Bytes.spells_iff.mp hx]
        exact .xOnly (Coordinate.isEven_iff.mpr heven)
    | @compressed tag _ x y h htag hx =>
        obtain ⟨x, rfl⟩ := Coordinate.toZMod_surjective x
        obtain ⟨y, rfl⟩ := Coordinate.toZMod_surjective y
        refine ⟨⟨x, y, Point.onCurve_iff.mpr h⟩, rfl, ?_⟩
        rw [Bytes.spells_iff.mp hx, compressedTag_iff.mp htag]
        exact .compressed
    | @uncompressed tag _ _ x y h htag hx hy =>
        obtain ⟨x, rfl⟩ := Coordinate.toZMod_surjective x
        obtain ⟨y, rfl⟩ := Coordinate.toZMod_surjective y
        refine ⟨⟨x, y, Point.onCurve_iff.mpr h⟩, rfl, ?_⟩
        rw [Bytes.spells_iff.mp hx, Bytes.spells_iff.mp hy]
        exact .uncompressed (uncompressedTag_iff.mp htag)
  · rintro ⟨⟨x, y, hcurve⟩, rfl, hspelled⟩
    cases hspelled with
    | compressed =>
        exact .compressed _ (compressedTag_iff.mpr rfl) (Bytes.spells_iff.mpr rfl)
    | uncompressed htag =>
        exact .uncompressed _ (uncompressedTag_iff.mpr htag) (Bytes.spells_iff.mpr rfl)
          (Bytes.spells_iff.mpr rfl)
    | xOnly heven =>
        exact .xOnly _ (Bytes.spells_iff.mpr rfl) (Coordinate.isEven_iff.mp heven)

theorem y_ne_zero (key : PublicKey) : key.y ≠ 0 :=
  mt Coordinate.toZMod_eq_zero_iff.mpr (secp256k1.y_ne_zero (Point.onCurve_iff.mp key.onCurve))

theorem hasEvenY_negate (key : PublicKey) : key.negate.hasEvenY = !key.hasEvenY :=
  Coordinate.isEven_neg key.y_ne_zero

theorem eq_of_ofCoordinates? {x y : Coordinate} (h : ofCoordinates? x y = some key) :
    key.x = x ∧ key.y = y := by
  unfold ofCoordinates? at h
  split_ifs at h
  cases h
  exact ⟨rfl, rfl⟩

/-- A coordinate is lifted to the key with that x-coordinate and the parity asked for. -/
theorem lift?_eq_some_iff {x : Coordinate} {isEven : Bool} :
    lift? x isEven = some key ↔ key.x = x ∧ key.hasEvenY = isEven := by
  constructor
  · intro h
    simp only [lift?, Option.bind_eq_bind, Option.bind_eq_some_iff] at h
    obtain ⟨root, -, hkey⟩ := h
    obtain ⟨hx, hy⟩ := eq_of_ofCoordinates? hkey
    refine ⟨hx, ?_⟩
    split_ifs at hy with hparity
    · rw [hasEvenY, hy, hparity]
    · have hnegate : key.negate.y = root := by
        change -key.y = root
        rw [hy]
        exact neg_neg root
      have hodd : key.negate.hasEvenY ≠ isEven := by
        rwa [hasEvenY, hnegate]
      rw [hasEvenY_negate] at hodd
      simpa using hodd
  · rintro ⟨rfl, rfl⟩
    exact key.lift?_x

theorem coordinate?_eq_some_iff {c : Coordinate} (hlength : bytes.length = 32) :
    coordinate? bytes = some c ↔ bytes = (Bytes32.ofNat c.val).bytes := by
  constructor
  · intro h
    unfold coordinate? Coordinate.ofNat? at h
    split_ifs at h
    rw [Option.some.injEq] at h
    rw [← Bytes.spells_iff, Bytes.Spells, Coordinate.val_toZMod, ← h]
    exact ⟨hlength, rfl⟩
  · rintro rfl
    exact coordinate?_ofNat c

theorem ofCompressed?_eq_some (h : ofCompressed? bytes = some key) : bytes = key.bytes := by
  unfold ofCompressed? at h
  split at h
  · next tag xBytes =>
      split_ifs at h with hform
      obtain ⟨x, hx, hkey⟩ := Option.bind_eq_some_iff.mp h
      obtain ⟨rfl, hparity⟩ := lift?_eq_some_iff.mp hkey
      rw [(coordinate?_eq_some_iff hform.1).mp hx, PublicKey.bytes, hparity]
      rcases hform.2 with rfl | rfl <;> rfl
  · cases h

theorem ofCompressed_eq_ok_iff : ofCompressed bytes = .ok key ↔ bytes = key.bytes := by
  constructor
  · intro h
    unfold ofCompressed at h
    split at h
    · cases h
    · split_ifs at h
      split at h
      · next made hmade =>
          cases h
          exact ofCompressed?_eq_some hmade
      · cases h
  · rintro rfl
    exact key.ofCompressed_bytes

theorem ofUncompressed?_eq_some {bytes : Bytes} (h : ofUncompressed? bytes = some key) :
    key.IsSpelled bytes := by
  unfold ofUncompressed? at h
  split at h
  · next tag xyBytes =>
      split_ifs at h with hlength
      simp only [Option.bind_eq_bind, Option.bind_eq_some_iff, Option.ite_none_right_eq_some,
        Option.some.injEq] at h
      obtain ⟨x, hx, y, hy, made, hmade, htag, rfl⟩ := h
      obtain ⟨rfl, rfl⟩ := eq_of_ofCoordinates? hmade
      rw [coordinate?_eq_some_iff (by simp [hlength])] at hx hy
      rw [← List.take_append_drop 32 xyBytes, hx, hy]
      exact .uncompressed htag
  · cases h

theorem ofBytes_eq_ok_iff : ofBytes bytes = .ok key ↔ key.IsSpelled bytes := by
  refine ⟨fun h => ?_, IsSpelled.ofBytes_eq_ok⟩
  unfold ofBytes at h
  split_ifs at h with hxOnly hcompressed huncompressed
  · have hbytes := ofCompressed_eq_ok_iff.mp h
    rw [PublicKey.bytes, List.cons.injEq] at hbytes
    obtain ⟨htag, rfl⟩ := hbytes
    exact .xOnly (parityTag_injective htag.symm)
  · rw [ofCompressed_eq_ok_iff.mp h]
    exact .compressed
  · split at h
    · next made hmade =>
        cases h
        exact ofUncompressed?_eq_some hmade
    · cases h

/-! ### The key with an even y -/

theorem xOnly_withEvenY (key : PublicKey) : key.withEvenY.xOnly = key.xOnly := by
  unfold withEvenY
  split_ifs <;> rfl

theorem hasEvenY_withEvenY (key : PublicKey) : key.withEvenY.hasEvenY = true := by
  unfold withEvenY
  split_ifs with heven
  · exact heven
  · rw [hasEvenY_negate]
    simpa using heven

theorem withEvenY_of_hasEvenY (h : key.hasEvenY = true) : key.withEvenY = key :=
  if_pos h

theorem isSpelled_xOnly (key : PublicKey) : key.withEvenY.IsSpelled key.xOnly.bytes := by
  rw [← key.xOnly_withEvenY]
  exact .xOnly key.hasEvenY_withEvenY

theorem bytes_withEvenY (key : PublicKey) : key.withEvenY.bytes = 0x02 :: key.xOnly.bytes := by
  rw [PublicKey.bytes, key.hasEvenY_withEvenY, key.xOnly_withEvenY]
  rfl

/-! ### Canonical reading -/

theorem denotes_iff_of_ofBytes (h : ofBytes bytes = .ok key) {P : secp256k1.Point} :
    bytes.Denotes P ↔ P = key.toCurve := by
  rw [denotes_iff]
  constructor
  · rintro ⟨key', rfl, hspelled⟩
    rw [hspelled.ofBytes_eq_ok, Except.ok.injEq] at h
    rw [h]
  · rintro rfl
    exact ⟨key, rfl, ofBytes_eq_ok_iff.mp h⟩

theorem not_denotes_of_ofBytes {fault : Fault} (h : ofBytes bytes = .error fault)
    (P : secp256k1.Point) : ¬ bytes.Denotes P := by
  intro hdenotes
  obtain ⟨key, -, hspelled⟩ := denotes_iff.mp hdenotes
  rw [hspelled.ofBytes_eq_ok] at h
  cases h

/-- What is read is the key of the one point that the byte string denotes, and what denotes none is
refused as a key; keys are equal where what they were read from denotes one point; a key is read
from its compressed and its uncompressed form; and its x-coordinate is read as the key with the even
y, which is always there. -/
theorem ofBytes_canonical :
    (∀ bytes : Bytes,
      (∃ key, ofBytes bytes = .ok key ∧ ∀ P, bytes.Denotes P ↔ P = key.toCurve) ∨
        ∃ fault, ofBytes bytes = .error fault ∧ fault.kind = .publicKey ∧
          ∀ P, ¬ bytes.Denotes P) ∧
      (∀ (bytes bytes' : Bytes) (key key' : PublicKey), ofBytes bytes = .ok key →
        ofBytes bytes' = .ok key' → (key = key' ↔ ∃ P, bytes.Denotes P ∧ bytes'.Denotes P)) ∧
      ∀ key : PublicKey,
        (key.bytes.length = 33 ∧ secp256k1.compressed? key.toCurve = some key.bytes) ∧
        (ofBytes key.bytes = .ok key ∧ ofBytes (key.uncompressed 0x04) = .ok key) ∧
        ofCompressed (0x02 :: key.xOnly.bytes) = .ok key.withEvenY ∧
        key.withEvenY.xOnly = key.xOnly ∧ key.withEvenY.withEvenY = key.withEvenY ∧
        ofBytes key.xOnly.bytes = .ok key.withEvenY := by
  refine ⟨fun bytes => ?_, fun bytes bytes' key key' h h' => ?_, fun key => ?_⟩
  · cases hread : ofBytes bytes with
    | ok key => exact .inl ⟨key, rfl, fun P => denotes_iff_of_ofBytes hread⟩
    | error fault =>
        exact .inr ⟨fault, rfl, refusesOnly_ofBytes bytes fault hread,
          not_denotes_of_ofBytes hread⟩
  · simp only [denotes_iff_of_ofBytes h, denotes_iff_of_ofBytes h', exists_eq_left,
      toCurve_injective.eq_iff]
  · refine ⟨⟨key.length_bytes, key.compressed?_toCurve⟩, ⟨key.ofBytes_bytes, ?_⟩, ?_,
      key.xOnly_withEvenY, withEvenY_of_hasEvenY key.hasEvenY_withEvenY,
      key.isSpelled_xOnly.ofBytes_eq_ok⟩
    · exact (IsSpelled.uncompressed (.inl rfl)).ofBytes_eq_ok
    · rw [← key.bytes_withEvenY, ofCompressed_bytes]

namespace TwoForms

def evenKey : PublicKey :=
  ⟨8, 0xcad0d0112833c87bdb1ff9472f0f1eb5aed3118e35bacaa6465e79761176f3de, by decide +kernel⟩

theorem ofBytes_canonical_two_forms :
    ∃ P, evenKey.bytes.Denotes P ∧ (evenKey.uncompressed 0x06).Denotes P := by
  have hhybrid : ofBytes (evenKey.uncompressed 0x06) = .ok evenKey :=
    (IsSpelled.uncompressed (.inr (by decide))).ofBytes_eq_ok
  exact (ofBytes_canonical.2.1 _ _ evenKey evenKey evenKey.ofBytes_bytes hhybrid).mp rfl

end TwoForms

end PublicKey

end QuorumTree
