import Mathlib.Algebra.BigOperators.Group.List.Lemmas
import Mathlib.Data.List.Prime
import Mathlib.NumberTheory.LucasPrimality
import Mathlib.Tactic.NormNum.Prime
import QuorumTree.Proofs.Curve.Power

/-!
The number that coordinates are counted modulo is prime. By the test of Lucas it is enough to know
the prime factors of one less and a number whose powers tell them apart, and the large factors are
tested in the same way.
-/

namespace QuorumTree

/-- The power `a ^ n` modulo `m` for exponents below 2^256, by squaring. -/
def powMod (m a n : Nat) : Nat :=
  (binaryDigits n).foldl (fun acc bit => if bit then acc * acc * a % m else acc * acc % m) 1

theorem natCast_powMod (m a : Nat) {n : Nat} (h : n < 2 ^ 256) :
    (powMod m a n : ZMod m) = (a : ZMod m) ^ n := by
  have hstep (acc : Nat) (bit : Bool) :
      (if bit then (acc : ZMod m) * acc * a else (acc : ZMod m) * acc) =
        ((if bit then acc * acc * a % m else acc * acc % m : Nat) : ZMod m) := by
    cases bit <;> simp
  rw [← foldl_binaryDigits (a : ZMod m) h, powMod, ← Nat.cast_one (R := ZMod m)]
  exact (List.foldl_hom (fun k : Nat => (k : ZMod m)) hstep).symm

/-- The conditions of the test on a number, a base and the factors of one less than the number. -/
def PassesLucas (p a : Nat) (factors : List Nat) : Prop :=
  1 < p ∧ p < 2 ^ 256 ∧ factors.prod = p - 1 ∧ powMod p a (p - 1) = 1 ∧
    ∀ q ∈ factors, powMod p a ((p - 1) / q) % p ≠ 1

instance (p a : Nat) (factors : List Nat) : Decidable (PassesLucas p a factors) :=
  inferInstanceAs (Decidable (_ ∧ _ ∧ _ ∧ _ ∧ _))

theorem prime_of_passesLucas {p : Nat} (a : Nat) (factors : List Nat)
    (h : PassesLucas p a factors) (hprime : ∀ q ∈ factors, q.Prime) : p.Prime := by
  obtain ⟨hone, hbound, hprod, hfull, hproper⟩ := h
  refine lucas_primality p (a : ZMod p) ?_ fun q hq hdvd hpower => ?_
  · rw [← natCast_powMod p a (by omega), hfull, Nat.cast_one]
  · have hmem : q ∈ factors := by
      rw [← hprod] at hdvd
      exact mem_list_primes_of_dvd_prod hq.prime (fun r hr => (hprime r hr).prime) hdvd
    have hle : (p - 1) / q ≤ p - 1 := Nat.div_le_self _ _
    rw [← natCast_powMod p a (by omega), ← Nat.cast_one (R := ZMod p), ZMod.natCast_eq_natCast_iff',
      Nat.mod_eq_of_lt hone] at hpower
    exact hproper q hmem hpower

theorem prime_173378833005251801 : Nat.Prime 173378833005251801 := by
  refine prime_of_passesLucas 6 [2, 2, 2, 5, 5, 2621, 24809, 13331831]
    (by decide +kernel) ?_
  simp only [List.forall_mem_cons]
  norm_num

theorem prime_22149492674086928081353 : Nat.Prime 22149492674086928081353 := by
  refine prime_of_passesLucas 5 [2, 2, 2, 3, 5323, 173378833005251801]
    (by decide +kernel) ?_
  simp only [List.forall_mem_cons, prime_173378833005251801]
  norm_num

theorem prime_132896956044521568488119 : Nat.Prime 132896956044521568488119 := by
  refine prime_of_passesLucas 6 [2, 3, 22149492674086928081353]
    (by decide +kernel) ?_
  simp only [List.forall_mem_cons, prime_22149492674086928081353]
  norm_num

theorem prime_255515944373312847190720520512484175977 :
    Nat.Prime 255515944373312847190720520512484175977 := by
  refine prime_of_passesLucas 3 [2, 2, 2, 7, 7, 11, 1627, 2657, 4423, 41201, 96557, 7240687,
    107590001] (by decide +kernel) ?_
  simp only [List.forall_mem_cons]
  norm_num

/-- The largest factor of one less than the prime of the curve. -/
theorem prime_largestFactor :
    Nat.Prime 205115282021455665897114700593932402728804164701536103180137503955397371 := by
  refine prime_of_passesLucas 10 [2, 3, 5, 29, 29, 31, 7723, 132896956044521568488119,
    255515944373312847190720520512484175977] (by decide +kernel) ?_
  simp only [List.forall_mem_cons, prime_132896956044521568488119,
    prime_255515944373312847190720520512484175977]
  norm_num

theorem fieldPrime_prime : fieldPrime.Prime := by
  refine prime_of_passesLucas 3 [2, 3, 7, 13441,
    205115282021455665897114700593932402728804164701536103180137503955397371]
    (by decide +kernel) ?_
  simp only [List.forall_mem_cons, prime_largestFactor]
  norm_num

end QuorumTree
