import QuorumTree.Proofs.Curve.GroupOrder
import QuorumTree.Proofs.KeyReading
import QuorumTree.Proofs.Store.RoundTrip

/-!
Output keys. The output key of a commitment is the point with the x-coordinate of the internal key
and an even y, plus the tweak times the generator. It depends on the internal key through its
x-coordinate only, and it is refused exactly where the tweak is no scalar of the group or the sum is
at infinity.
-/

namespace QuorumTree

namespace PublicKey

variable {key : PublicKey}

/-! ### The point of an x-coordinate -/

theorem toCurve_negate (key : PublicKey) : key.negate.toCurve = -key.toCurve := by
  rw [toCurve, toCurve, WeierstrassCurve.Affine.Point.neg_some]
  simp [negate]

/-- The point of a key or its negative, whichever has the even y. -/
def lifted (key : PublicKey) : secp256k1.Point :=
  if key.hasEvenY then key.toCurve else -key.toCurve

theorem toCurve_withEvenY (key : PublicKey) : key.withEvenY.toCurve = key.lifted := by
  unfold withEvenY lifted
  split_ifs
  · rfl
  · exact key.toCurve_negate

/-- The x-coordinate of a key stands for this point alone. -/
theorem denotes_xOnly_iff {P : secp256k1.Point} : key.xOnly.bytes.Denotes P ↔ P = key.lifted := by
  rw [denotes_iff_of_ofBytes key.isSpelled_xOnly.ofBytes_eq_ok, toCurve_withEvenY]

/-- Keys with one x-coordinate have one key with an even y. -/
theorem withEvenY_congr {key' : PublicKey} (h : key'.xOnly = key.xOnly) :
    key'.withEvenY = key.withEvenY := by
  apply eq_of_xOnly_eq
  · simp only [xOnly_withEvenY, h]
  · simp only [hasEvenY_withEvenY]

/-- A key is read back from its x-coordinate behind the tag for the parity of its y. -/
theorem ofCompressed_parity (key : PublicKey) :
    ofCompressed (UInt8.ofNat (2 + if key.hasEvenY then 0 else 1) :: key.xOnly.bytes) = .ok key := by
  rw [ofCompressed_eq_ok_iff, bytes]
  cases key.hasEvenY <;> rfl

/-! ### Adding multiples of the generator -/

theorem represents_addGenerator (key : PublicKey) {n : Nat} (hn : n < 2 ^ 256) :
    (key.toPoint.add (Point.scale n .generator)).Represents
      (key.toCurve + n • secp256k1.generator) :=
  key.represents_toPoint.add (secp256k1.represents_generator.scale hn)

theorem addGenerator?_eq_none_iff {n : Nat} (hn : n < 2 ^ 256) :
    key.addGenerator? n = none ↔ key.toCurve + n • secp256k1.generator = 0 :=
  ofPoint?_eq_none_iff (key.represents_addGenerator hn)

theorem addGenerator?_eq_some_iff {n : Nat} (hn : n < 2 ^ 256) {sum : PublicKey} :
    key.addGenerator? n = some sum ↔ sum.toCurve = key.toCurve + n • secp256k1.generator := by
  refine ⟨toCurve_of_ofPoint? (key.represents_addGenerator hn), fun h => ?_⟩
  obtain ⟨found, hfound⟩ : ∃ found, key.addGenerator? n = some found := by
    rw [← Option.ne_none_iff_exists', Ne, addGenerator?_eq_none_iff hn, ← h]
    exact sum.toCurve_ne_zero
  have hsame := toCurve_of_ofPoint? (key.represents_addGenerator hn) hfound
  rw [hfound, toCurve_injective (hsame.trans h.symm)]

end PublicKey

/-! ### The output key -/

/-- The point that an internal key and a root are committed to by: the lifted internal key plus the
tweak times the generator. -/
def tweakedPoint (internalKey : PublicKey) (root : Bytes32) : secp256k1.Point :=
  internalKey.lifted + (tweakHash internalKey.xOnly root).toNat • secp256k1.generator

variable {internalKey outputKey : PublicKey} {root : Bytes32}

theorem tweakKey_congr {other : PublicKey} (h : other.xOnly = internalKey.xOnly) :
    tweakKey other root = tweakKey internalKey root := by
  rw [tweakKey, tweakKey, PublicKey.withEvenY_congr h]

/-- The output key is the key of the tweaked point. -/
theorem tweakKey_eq_ok_iff :
    tweakKey internalKey root = .ok outputKey ↔
      (tweakHash internalKey.xOnly root).toNat < groupOrder ∧
        outputKey.toCurve = tweakedPoint internalKey root := by
  have hbound : groupOrder < 2 ^ 256 := by decide
  unfold tweakKey tweakedPoint
  simp only [internalKey.xOnly_withEvenY]
  split_ifs with hlarge
  · simp only [false_iff, not_and]
    omega
  · have hadds := @PublicKey.addGenerator?_eq_some_iff internalKey.withEvenY _
      (Nat.lt_trans (Nat.not_le.mp hlarge) hbound) outputKey
    rw [← PublicKey.toCurve_withEvenY, ← hadds]
    simp only [Nat.not_le.mp hlarge, true_and]
    split
    · next found hfound => simp [hfound]
    · next hnone => simp [hnone]

theorem exists_tweakKey_iff :
    (∃ outputKey, tweakKey internalKey root = .ok outputKey) ↔
      (tweakHash internalKey.xOnly root).toNat < groupOrder ∧ tweakedPoint internalKey root ≠ 0 := by
  simp only [tweakKey_eq_ok_iff, exists_and_left]
  refine and_congr_right fun hscalar => ⟨?_, fun hfinite => ?_⟩
  · rintro ⟨outputKey, h⟩
    rw [← h]
    exact outputKey.toCurve_ne_zero
  · have hbound : (tweakHash internalKey.xOnly root).toNat < 2 ^ 256 :=
      Nat.lt_trans hscalar (by decide)
    have hsum := internalKey.withEvenY.represents_addGenerator hbound
    rw [PublicKey.toCurve_withEvenY] at hsum
    obtain ⟨hzero, -⟩ | ⟨outputKey, h, -⟩ := PublicKey.exists_ofPoint? hsum
    · exact absurd hzero hfinite
    · exact ⟨outputKey, h⟩

/-- The output of an internal key and a root. The x-coordinate of the internal key stands for its
lifted point alone. Where the tweak is a scalar of the group and the tweaked point is finite, there
is an output key, which is this point in its compressed form, and it is the same for every internal
key with that x-coordinate. Commitments with the internal key and the root have it for their output:
the script pushes the x-coordinate of the point, and from this and the parity of the output the
output key is read back. -/
theorem output_of_tweakedPoint (internalKey : PublicKey) (root : Bytes32) {x y : ZMod fieldPrime}
    {hcurve : secp256k1.Nonsingular x y}
    (hscalar : (tweakHash internalKey.xOnly root).toNat < groupOrder)
    (hpoint : tweakedPoint internalKey root = .some x y hcurve) :
    (∀ P, internalKey.xOnly.bytes.Denotes P ↔ P = internalKey.lifted) ∧
      ∃ outputKey : PublicKey,
        outputKey.bytes = PublicKey.parityTag (y.val % 2 == 0) :: Bytes.bigEndian 32 x.val ∧
        (∀ other : PublicKey, other.xOnly = internalKey.xOnly →
          tweakKey other root = .ok outputKey) ∧
        let output : OutputCommitment := ⟨internalKey, root, outputKey⟩
        (∀ commitment : Commitment, commitment.internalKey = .key internalKey →
          commitment.root = root → commitment.output = .ok output) ∧
        output.script = 0x51 :: 0x20 :: Bytes.bigEndian 32 x.val ∧
        PublicKey.ofCompressed (UInt8.ofNat (2 + output.parity) :: Bytes.bigEndian 32 x.val) =
          .ok outputKey := by
  refine ⟨fun P => PublicKey.denotes_xOnly_iff, ?_⟩
  obtain ⟨outputKey, hkey⟩ := exists_tweakKey_iff.mpr
    ⟨hscalar, hpoint ▸ WeierstrassCurve.Affine.Point.some_ne_zero hcurve⟩
  -- The coordinates of the tweaked point are those of the output key.
  have hcoordinates := (tweakKey_eq_ok_iff.mp hkey).2.trans hpoint
  rw [PublicKey.toCurve, WeierstrassCurve.Affine.Point.some.injEq] at hcoordinates
  obtain ⟨rfl, rfl⟩ := hcoordinates
  have hx : Bytes.bigEndian 32 outputKey.x.toZMod.val = outputKey.xOnly.bytes := by
    rw [Coordinate.val_toZMod]
    rfl
  have heven : (outputKey.y.toZMod.val % 2 == 0) = outputKey.hasEvenY := by
    rw [Coordinate.val_toZMod]
    rfl
  rw [hx, heven]
  refine ⟨outputKey, rfl, fun other hother => (tweakKey_congr hother).trans hkey, ?_, rfl,
    outputKey.ofCompressed_parity⟩
  rintro commitment hinternal rfl
  rw [Commitment.output, hinternal]
  show (tweakKey internalKey commitment.root).map _ = _
  rw [hkey]
  rfl

namespace TwoOfThree

/-- A commitment with an even internal key. The odd key with its x-coordinate has the same output
key, which is odd itself and read back as such. -/
theorem output_of_tweakedPoint_two_of_three :
    firstKey.hasEvenY = true ∧ firstKey.negate.hasEvenY = false ∧
      tweakKey firstKey.negate commitment.root = .ok output.outputKey ∧
      commitment.output = .ok output ∧
      PublicKey.ofCompressed (0x03 :: output.outputKey.xOnly.bytes) = .ok output.outputKey := by
  have hkey : tweakKey firstKey commitment.root = .ok output.outputKey := by
    decide +kernel
  obtain ⟨hscalar, hpoint⟩ := tweakKey_eq_ok_iff.mp hkey
  obtain ⟨-, outputKey, -, hsame, hcommitted, -, hread⟩ :=
    output_of_tweakedPoint firstKey commitment.root hscalar hpoint.symm
  obtain rfl : output.outputKey = outputKey := Except.ok.inj (hkey.symm.trans (hsame _ rfl))
  have heven : firstKey.hasEvenY = true := by decide
  have hodd : firstKey.negate.hasEvenY = false := by
    rw [PublicKey.hasEvenY_negate, heven]
    rfl
  have hparity : output.parity = 1 := by decide
  rw [Coordinate.val_toZMod] at hread
  change PublicKey.ofCompressed (UInt8.ofNat (2 + output.parity) :: output.outputKey.xOnly.bytes) =
    .ok output.outputKey at hread
  rw [hparity] at hread
  exact ⟨heven, hodd, hsame _ rfl, hcommitted commitment rfl rfl, hread⟩

end TwoOfThree

end QuorumTree
