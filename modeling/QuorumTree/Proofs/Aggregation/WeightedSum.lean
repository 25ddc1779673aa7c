import QuorumTree.Aggregation.MuSig
import QuorumTree.Proofs.Curve.Multiple
import QuorumTree.Proofs.KeyPoint

/-!
The aggregate of distinct keys is their weighted sum in the group of the curve. The weight of the
second key is one, and every other weight is a hash of the whole list and the key. That nothing is
multiplied by one, and nothing added where there is one key only, does not show in the sum.
-/

namespace QuorumTree

/-- The weight of the key at an index, counted from zero. -/
def weight (keys : List PublicKey) (index : Nat) (key : PublicKey) : Nat :=
  if index = 1 then 1
  else (coefficientHash (keyListHash keys).bytes key).toNat % groupOrder

def weights (keys : List PublicKey) : List Nat :=
  keys.mapIdx (weight keys)

/-- The sum of the points of the keys, each times its weight. -/
def weightedTotal (keys : List PublicKey) : secp256k1.Point :=
  (List.zipWith (fun key weight => weight • key.toCurve) keys (weights keys)).sum

variable {keys : List PublicKey}

theorem secondKey?_of_nodup (h : keys.Nodup) : secondKey? keys = keys[1]? := by
  match keys, h with
  | [], _ => rfl
  | [_], _ => rfl
  | first :: second :: rest, h =>
      have hne : second ≠ first := fun heq => (List.nodup_cons.mp h).1 (heq ▸ List.mem_cons_self)
      simp [secondKey?, hne]

theorem some_getElem_eq_iff {α : Type} {items : List α} (h : items.Nodup) {i j : Nat}
    (hi : i < items.length) : some items[i] = items[j]? ↔ i = j := by
  rw [eq_comm, List.getElem?_eq_some_iff]
  constructor
  · rintro ⟨hj, heq⟩
    exact (h.getElem_inj_iff.mp heq).symm
  · rintro rfl
    exact ⟨hi, rfl⟩

/-- Among distinct keys the first that differs from the head is the one behind it. -/
theorem keyCoefficients_of_nodup (h : keys.Nodup) : keyCoefficients keys = weights keys := by
  refine List.ext_getElem (by simp [keyCoefficients, weights]) fun i hi _ => ?_
  have hi' : i < keys.length := by simpa [keyCoefficients] using hi
  simp only [keyCoefficients, weights, List.getElem_map, List.getElem_mapIdx, keyCoefficient,
    weight, secondKey?_of_nodup h, some_getElem_eq_iff h hi']

theorem lt_of_mem_weights {n : Nat} (h : n ∈ weights keys) : n < 2 ^ 256 := by
  obtain ⟨i, hi, rfl⟩ := List.mem_mapIdx.mp h
  unfold weight
  split_ifs
  · decide
  · exact Nat.lt_trans (Nat.mod_lt _ (by decide)) (by decide)

theorem represents_weightedPoint (key : PublicKey) {n : Nat} (hn : n < 2 ^ 256) :
    (weightedPoint key n).Represents (n • key.toCurve) := by
  unfold weightedPoint
  split_ifs with hone
  · rw [hone, one_nsmul]
    exact key.represents_toPoint
  · exact key.represents_toPoint.scale hn

theorem represents_zipWith (keys : List PublicKey) {coefficients : List Nat}
    (h : ∀ n ∈ coefficients, n < 2 ^ 256) :
    List.Forall₂ Point.Represents (List.zipWith weightedPoint keys coefficients)
      (List.zipWith (fun key weight => weight • key.toCurve) keys coefficients) := by
  induction keys generalizing coefficients with
  | nil => exact .nil
  | cons key keys ih =>
      cases coefficients with
      | nil => exact .nil
      | cons n coefficients =>
          rw [List.forall_mem_cons] at h
          exact .cons (represents_weightedPoint key h.1) (ih h.2)

/-- A single term is the same as the sum of a list of one. -/
theorem represents_weightedSum {coefficients : List Nat} (h : ∀ n ∈ coefficients, n < 2 ^ 256) :
    (weightedSum keys coefficients).Represents
      (List.zipWith (fun key weight => weight • key.toCurve) keys coefficients).sum := by
  have hterms := represents_zipWith keys h
  unfold weightedSum
  split
  · next heq =>
      rw [heq] at hterms
      obtain ⟨_, _, hterm, hrest, heq'⟩ := List.forall₂_cons_left_iff.mp hterms
      rw [List.forall₂_nil_left_iff] at hrest
      rw [heq', hrest, List.sum_singleton]
      exact hterm
  · exact Point.Represents.sum hterms

theorem represents_weightedSum_weights (keys : List PublicKey) :
    (weightedSum keys (weights keys)).Represents (weightedTotal keys) :=
  represents_weightedSum fun _ => lt_of_mem_weights

/-- What an aggregate is refused for. -/
def IsRefused (keys : List PublicKey) : Prop :=
  keys = [] ∨ ¬ keys.Nodup ∨ 0 ∈ weights keys ∨ weightedTotal keys = 0

theorem weightedKey?_eq_none_iff :
    weightedKey? keys (weights keys) = none ↔ 0 ∈ weights keys ∨ weightedTotal keys = 0 := by
  unfold weightedKey?
  split_ifs with hzero
  · exact ⟨fun _ => .inl hzero, fun _ => rfl⟩
  · rw [PublicKey.ofPoint?_eq_none_iff (represents_weightedSum_weights keys)]
    exact (or_iff_right hzero).symm

theorem toCurve_of_weightedKey? {key : PublicKey}
    (h : weightedKey? keys (weights keys) = some key) : key.toCurve = weightedTotal keys := by
  unfold weightedKey? at h
  split_ifs at h
  exact PublicKey.toCurve_of_ofPoint? (represents_weightedSum_weights keys) h

/-- Where nothing is to be refused the answer is the key of the sum, and otherwise the refusal is of
the kind for aggregates. -/
theorem musig_cases (keys : List PublicKey) :
    (IsRefused keys ∧ ∃ fault, musig keys = .error fault ∧ fault.kind = .aggregation) ∨
      ¬ IsRefused keys ∧ ∃ made, musig keys = .ok made ∧
        made.coefficients = (weights keys).map Int.ofNat ∧
        made.key.toCurve = weightedTotal keys := by
  unfold musig IsRefused
  by_cases hempty : keys = []
  · exact .inl ⟨.inl hempty, .noKeys, by rw [hempty]; rfl, rfl⟩
  rw [if_neg (by simpa using hempty)]
  by_cases hnodup : keys.Nodup
  · rw [if_neg (not_not.mpr hnodup)]
    simp only [keyCoefficients_of_nodup hnodup]
    cases hkey : weightedKey? keys (weights keys) with
    | none =>
        exact .inl ⟨.inr (.inr (weightedKey?_eq_none_iff.mp hkey)), _, rfl, rfl⟩
    | some key =>
        refine .inr ⟨?_, ⟨key, (weights keys).map Int.ofNat⟩, rfl, rfl,
          toCurve_of_weightedKey? hkey⟩
        rw [← weightedKey?_eq_none_iff, hkey]
        simp [hempty, hnodup]
  · rw [if_pos hnodup]
    exact .inl ⟨.inr (.inl hnodup), _, rfl, rfl⟩

/-- Keys are aggregated to their weighted sum, and refused exactly where there is none, a key stands
among them twice, a weight is zero, or the sum is at infinity. -/
theorem musig_eq_weightedTotal (keys : List PublicKey) :
    ((∃ fault, musig keys = .error fault) ↔
        keys = [] ∨ ¬ keys.Nodup ∨ 0 ∈ weights keys ∨ weightedTotal keys = 0) ∧
      (∀ fault, musig keys = .error fault → fault.kind = .aggregation) ∧
      ∀ made, musig keys = .ok made →
        made.coefficients = (weights keys).map Int.ofNat ∧
          made.key.toCurve = weightedTotal keys ∧
          secp256k1.compressed? (weightedTotal keys) = some made.key.bytes := by
  rcases musig_cases keys with ⟨hrefused, fault, hfault, hkind⟩ |
    ⟨hrefused, made, hmade, hweights, hcurve⟩
  · simp only [hfault, Except.error.injEq, exists_eq', true_iff, forall_eq', reduceCtorEq,
      false_implies, implies_true, and_true]
    exact ⟨hrefused, hkind⟩
  · simp only [hmade, reduceCtorEq, exists_false, false_iff, false_implies, implies_true,
      Except.ok.injEq, forall_eq', true_and]
    exact ⟨hrefused, hweights, hcurve, by rw [← hcurve, made.key.compressed?_toCurve]⟩

namespace TwoKeys

def first : PublicKey :=
  ⟨13, 0x2ccef9496dc270f1a6308428a780587e97caa63c6109c3ed4d6b63373049c314, by decide +kernel⟩

def second : PublicKey :=
  ⟨14, 0x9d4a66c0b9b229d3fd30659bee2c74410c1d8b3da4a6db1175c0ea0c5fe8cd90, by decide +kernel⟩

def aggregate : Aggregate where
  key :=
    ⟨0x927fafa60d0b9e71f18c79b7aa903d78cf0f52bce2ea279ba68653778d5cfbc1,
      0xca09fd9d0d38ca037d2f941116a965f91b2baf3ec6e6a5c3d5f3b70704941081, by decide +kernel⟩
  coefficients := [0xff9616472e31ca20c5f4036ebdd99a70add2351843206eda4e108c74f6b73a69, 1]

theorem musig_eq_weightedTotal_two_keys :
    (weights [first, second]).map Int.ofNat = aggregate.coefficients ∧
      weightedTotal [first, second] = aggregate.key.toCurve := by
  obtain ⟨-, -, hmade⟩ := musig_eq_weightedTotal [first, second]
  obtain ⟨hweights, hcurve, -⟩ := hmade aggregate (by decide +kernel)
  exact ⟨hweights.symm, hcurve.symm⟩

end TwoKeys

end QuorumTree
