import Mathlib.Data.Nat.Prime.Int
import Mathlib.Tactic.Ring
import QuorumTree.Datum
import QuorumTree.Proofs.Curve.SquareRoot
import QuorumTree.Proofs.Text.Hex

/-!
Public keys and their compressed forms. A key is known from its thirty-three bytes, since a
coordinate has at most two square roots and they differ in parity; so the order of the compressed
forms is a total order on keys, and reading the compressed form of a key gives the key.
-/

namespace QuorumTree

theorem fieldPrime_lt : fieldPrime < 256 ^ 32 := by decide

theorem fieldPrime_mod_two : fieldPrime % 2 = 1 := by decide

/-- Coordinates with one square and one parity are equal: the prime is odd, so one of a number and
its negative is even and the other odd. -/
theorem coordinate_eq_of_mul_self_eq {y y' : Coordinate} (hsquare : y * y = y' * y')
    (hparity : y.isEven = y'.isEven) : y = y' := by
  have hp := fieldPrime_prime
  have hodd := fieldPrime_mod_two
  have hmod : (y.val * y.val) % fieldPrime = (y'.val * y'.val) % fieldPrime := by
    have hval := congrArg Fin.val hsquare
    rwa [Fin.val_mul, Fin.val_mul] at hval
  have hdvd : (fieldPrime : Int) ∣ ((y.val : Int) - y'.val) * ((y.val : Int) + y'.val) := by
    rw [show ((y.val : Int) - y'.val) * ((y.val : Int) + y'.val) =
      ((y.val * y.val : Nat) : Int) - ((y'.val * y'.val : Nat) : Int) by push_cast; ring]
    exact Nat.modEq_iff_dvd.mp (Eq.symm hmod)
  have hsame : y.val % 2 = y'.val % 2 := by
    unfold Coordinate.isEven at hparity
    rcases Nat.mod_two_eq_zero_or_one y.val with h | h <;>
      rcases Nat.mod_two_eq_zero_or_one y'.val with h' | h' <;> simp_all
  have hy := y.isLt
  have hy' := y'.isLt
  refine Fin.ext ?_
  rcases (Nat.prime_iff_prime_int.mp hp).dvd_or_dvd hdvd with hdiff | hsum
  · have hzero : (y.val : Int) - y'.val = 0 := by
      refine Int.eq_zero_of_abs_lt_dvd hdiff ?_
      rw [abs_lt]
      constructor <;> omega
    omega
  -- A sum of numbers below the prime is zero or the prime itself, which is odd.
  · rw [← Nat.cast_add, Int.natCast_dvd_natCast] at hsum
    obtain ⟨k, hk⟩ := hsum
    match k, hk with
    | 0, hk => omega
    | 1, hk => omega
    | k + 2, hk =>
        rw [Nat.mul_add] at hk
        omega

/-- A coordinate fits in thirty-two bytes. -/
theorem ofBigEndian_ofNat_val (c : Coordinate) :
    Bytes.ofBigEndian (Bytes32.ofNat c.val).bytes = c.val := by
  rw [Bytes32.ofNat, Bytes.ofBigEndian_bigEndian,
    Nat.mod_eq_of_lt (Nat.lt_trans c.isLt fieldPrime_lt)]

namespace PublicKey

theorem parityTag_injective {isEven isEven' : Bool}
    (h : parityTag isEven = parityTag isEven') : isEven = isEven' := by
  revert h
  cases isEven <;> cases isEven' <;> decide

theorem coordinate?_ofNat (c : Coordinate) : coordinate? (Bytes32.ofNat c.val).bytes = some c := by
  rw [coordinate?, ofBigEndian_ofNat_val]
  exact dif_pos c.isLt

theorem coordinate?_xOnly (key : PublicKey) : coordinate? key.xOnly.bytes = some key.x :=
  coordinate?_ofNat key.x

theorem x_eq_of_xOnly_eq {key key' : PublicKey} (h : key.xOnly = key'.xOnly) : key.x = key'.x := by
  have hsame : some key.x = some key'.x := by
    rw [← coordinate?_xOnly, h, coordinate?_xOnly]
  exact Option.some.inj hsame

/-- A key is known from its x-coordinate and the parity of its y-coordinate. -/
theorem eq_of_xOnly_eq {key key' : PublicKey} (hx : key.xOnly = key'.xOnly)
    (hparity : key.hasEvenY = key'.hasEvenY) : key = key' := by
  obtain ⟨x, y, hcurve⟩ := key
  obtain ⟨x', y', hcurve'⟩ := key'
  obtain rfl : x = x' := x_eq_of_xOnly_eq hx
  have hsquare : y * y = y' * y' := hcurve.trans hcurve'.symm
  obtain rfl : y = y' := coordinate_eq_of_mul_self_eq hsquare hparity
  rfl

theorem bytes_injective {key key' : PublicKey} (h : key.bytes = key'.bytes) : key = key' := by
  rw [bytes, bytes, List.cons.injEq] at h
  obtain ⟨htag, hx⟩ := h
  have hxOnly : key.xOnly = key'.xOnly := by
    have hsame := (Bytes32.ofBytes?_bytes key.xOnly).symm
    rw [hx, Bytes32.ofBytes?_bytes] at hsame
    exact Option.some.inj hsame
  exact eq_of_xOnly_eq hxOnly (parityTag_injective htag)

theorem le_trans (a b c : PublicKey) : a.le b → b.le c → a.le c := by
  simp only [le, decide_eq_true_eq]
  exact List.le_trans

theorem le_total (a b : PublicKey) : a.le b || b.le a := by
  simp only [le, Bool.or_eq_true, decide_eq_true_eq]
  exact List.le_total _ _

theorem le_antisymm {a b : PublicKey} (hab : a.le b) (hba : b.le a) : a = b := by
  simp only [le, decide_eq_true_eq] at hab hba
  exact bytes_injective (List.le_antisymm hab hba)

theorem bytes_lt_of_le {a b : PublicKey} (hle : a.le b) (hne : a ≠ b) : a.bytes < b.bytes := by
  simp only [le, decide_eq_true_eq] at hle
  rcases List.le_iff_lt_or_eq.mp hle with hlt | heq
  · exact hlt
  · exact absurd (bytes_injective heq) hne

/-! ### Reading -/

theorem ofCoordinates?_self (key : PublicKey) : ofCoordinates? key.x key.y = some key :=
  dif_pos key.onCurve

/-- A key is found again from its x-coordinate and its parity. -/
theorem lift?_x (key : PublicKey) : lift? key.x key.hasEvenY = some key := by
  obtain ⟨root, hroot, hsquare⟩ := Coordinate.exists_sqrt? key.y
  have hy : (if root.isEven = key.hasEvenY then root else -root) = key.y := by
    split_ifs with hparity
    · exact coordinate_eq_of_mul_self_eq hsquare hparity
    · rcases Coordinate.eq_or_eq_neg_of_mul_self_eq hsquare with rfl | rfl
      · exact absurd rfl hparity
      · exact neg_neg key.y
  have hcurve : key.x * key.x * key.x + 7 = key.y * key.y := key.onCurve.symm
  rw [lift?, hcurve, hroot]
  change ofCoordinates? key.x (if root.isEven = key.hasEvenY then root else -root) = some key
  rw [hy, ofCoordinates?_self]

theorem ofCompressed_bytes (key : PublicKey) : ofCompressed key.bytes = .ok key := by
  have htag : parityTag key.hasEvenY = 0x02 ∨ parityTag key.hasEvenY = 0x03 := by
    cases key.hasEvenY <;> decide
  have hparity : decide (parityTag key.hasEvenY = 0x02) = key.hasEvenY := by
    cases key.hasEvenY <;> decide
  have hlength : (parityTag key.hasEvenY :: key.xOnly.bytes).length = 33 := key.length_bytes
  have hread : ofCompressed? (parityTag key.hasEvenY :: key.xOnly.bytes) = some key := by
    rw [ofCompressed?, if_pos ⟨key.xOnly.length_bytes, htag⟩, coordinate?_xOnly, Option.bind_some,
      hparity, lift?_x]
  simp [bytes, ofCompressed, hlength, htag, hread]

theorem ofBytes_bytes (key : PublicKey) : ofBytes key.bytes = .ok key := by
  have hlength := key.length_bytes
  rw [ofBytes, if_neg (by omega), if_pos hlength, ofCompressed_bytes]

theorem ofHex_hex (key : PublicKey) : ofHex key.hex = .ok key := by
  rw [ofHex, hex, Hex.decodeSpaced_encode]
  exact key.ofBytes_bytes

end PublicKey

end QuorumTree
