import Mathlib.GroupTheory.OrderOfElement
import QuorumTree.Proofs.Curve.FieldPrime
import QuorumTree.Proofs.Curve.Multiple
import QuorumTree.Proofs.KeyPoint

/-!
The order of the generator. It is the prime that secrets stay below, so a secret in range always has
a key, and different secrets have different ones.
-/

namespace QuorumTree

theorem prime_297159362677 : Nat.Prime 297159362677 := by
  refine prime_of_passesLucas 2 [2, 2, 3, 3, 11, 461, 1627771] (by decide +kernel) ?_
  simp only [List.forall_mem_cons]
  norm_num

theorem prime_545358713 : Nat.Prime 545358713 := by
  refine prime_of_passesLucas 5 [2, 2, 2, 41, 59, 28181] (by decide +kernel) ?_
  simp only [List.forall_mem_cons]
  norm_num

theorem prime_29047611873442575647497758179 : Nat.Prime 29047611873442575647497758179 := by
  refine prime_of_passesLucas 2 [2, 293, 305873, 545358713, 297159362677] (by decide +kernel) ?_
  simp only [List.forall_mem_cons, prime_545358713, prime_297159362677]
  norm_num

theorem prime_341948486974166000522343609283189 :
    Nat.Prime 341948486974166000522343609283189 := by
  refine prime_of_passesLucas 2 [2, 2, 3, 3, 3, 109, 29047611873442575647497758179]
    (by decide +kernel) ?_
  simp only [List.forall_mem_cons, prime_29047611873442575647497758179]
  norm_num

theorem prime_174723607534414371449 : Nat.Prime 174723607534414371449 := by
  refine prime_of_passesLucas 3 [2, 2, 2, 17, 59, 4051, 120233, 44706919] (by decide +kernel) ?_
  simp only [List.forall_mem_cons]
  norm_num

theorem prime_107361793816595537 : Nat.Prime 107361793816595537 := by
  refine prime_of_passesLucas 3 [2, 2, 2, 2, 16699, 85831, 4681609] (by decide +kernel) ?_
  simp only [List.forall_mem_cons]
  norm_num

theorem groupOrder_prime : groupOrder.Prime := by
  refine prime_of_passesLucas 7 [2, 2, 2, 2, 2, 2, 3, 149, 631, 107361793816595537,
    174723607534414371449, 341948486974166000522343609283189] (by decide +kernel) ?_
  simp only [List.forall_mem_cons, prime_107361793816595537, prime_174723607534414371449,
    prime_341948486974166000522343609283189]
  norm_num

namespace secp256k1

theorem onCurve_generator :
    Point.OnCurve 0x79be667ef9dcbbac55a06295ce870b07029bfcdb2dce28d959f2815b16f81798
      0x483ada7726a3c4655da4fbfc0e1108a8fd17b448a68554199c47d08ffb10d4b8 := by
  decide +kernel

/-- The point that all tweaks are multiples of. -/
def generator : secp256k1.Point :=
  .some _ _ (Point.onCurve_iff.mp onCurve_generator)

theorem represents_generator : Point.generator.Represents generator :=
  .affine _

theorem scale_groupOrder : Point.scale groupOrder .generator = .infinity := by
  decide +kernel

theorem groupOrder_nsmul_generator : groupOrder • generator = 0 := by
  have hbound : groupOrder < 2 ^ 256 := by decide
  have hscaled := represents_generator.scale hbound
  rw [scale_groupOrder] at hscaled
  generalize groupOrder • generator = P at hscaled
  cases hscaled
  rfl

theorem generator_ne_zero : generator ≠ 0 :=
  WeierstrassCurve.Affine.Point.some_ne_zero _

theorem addOrderOf_generator : addOrderOf generator = groupOrder :=
  have : Fact groupOrder.Prime := ⟨groupOrder_prime⟩
  addOrderOf_eq_prime groupOrder_nsmul_generator generator_ne_zero

theorem nsmul_generator_eq_zero_iff {n : Nat} : n • generator = 0 ↔ groupOrder ∣ n := by
  rw [← addOrderOf_dvd_iff_nsmul_eq_zero, addOrderOf_generator]

/-- Different numbers below the order make different multiples. -/
theorem nsmul_generator_inj {n other : Nat} (hn : n < groupOrder) (hother : other < groupOrder)
    (h : n • generator = other • generator) : n = other := by
  rw [← addOrderOf_generator] at hn hother
  exact nsmul_injOn_Iio_addOrderOf hn hother h

end secp256k1

namespace PublicKey

/-! ### The keys of secrets -/

/-- Every secret in range has a key, which is that multiple of the generator. -/
theorem exists_ofPoint?_scale {n : Nat} (hpos : 0 < n) (hlt : n < groupOrder) :
    ∃ key, ofPoint? (Point.scale n .generator) = some key ∧
      key.toCurve = n • secp256k1.generator := by
  have hscaled := secp256k1.represents_generator.scale (hlt.trans (by decide))
  rcases exists_ofPoint? hscaled with ⟨hzero, -⟩ | ⟨key, hcurve, hkey⟩
  · have hdvd := Nat.le_of_dvd hpos (secp256k1.nsmul_generator_eq_zero_iff.mp hzero)
    omega
  · exact ⟨key, hkey, hcurve⟩

/-- The keys of the secrets from one on, as many as counted. -/
def firstSecrets (count : Nat) : List PublicKey :=
  (List.range' 1 count).filterMap fun n => ofPoint? (Point.scale n .generator)

theorem map_toCurve_firstSecrets {count : Nat} (h : count < groupOrder) :
    (firstSecrets count).map toCurve = (List.range' 1 count).map (· • secp256k1.generator) := by
  rw [firstSecrets, List.map_filterMap, ← List.filterMap_eq_map]
  refine List.filterMap_congr fun n hn => ?_
  obtain ⟨hpos, hle⟩ := List.mem_range'_1.mp hn
  obtain ⟨key, hkey, hcurve⟩ := exists_ofPoint?_scale hpos (by omega)
  simp [hkey, hcurve]

theorem length_firstSecrets {count : Nat} (h : count < groupOrder) :
    (firstSecrets count).length = count := by
  have hlength := congrArg List.length (map_toCurve_firstSecrets h)
  simpa using hlength

theorem nodup_firstSecrets {count : Nat} (h : count < groupOrder) : (firstSecrets count).Nodup := by
  refine List.Nodup.of_map toCurve ?_
  rw [map_toCurve_firstSecrets h]
  refine List.Nodup.map_on (fun n hn other hother => ?_) (List.nodup_range')
  obtain ⟨-, hle⟩ := List.mem_range'_1.mp hn
  obtain ⟨-, hle'⟩ := List.mem_range'_1.mp hother
  exact secp256k1.nsmul_generator_inj (by omega) (by omega)

end PublicKey

end QuorumTree
