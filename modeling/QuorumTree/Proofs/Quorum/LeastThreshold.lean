import Mathlib.Order.Bounds.Basic
import QuorumTree.Proofs.Number
import QuorumTree.Proofs.Quorum.Enumeration
import QuorumTree.Quorum.Untrusted

/-!
The smallest threshold within a limit. The search walks down from the threshold of all participants
and stops half-way, or at the first threshold with too many quorums. That is enough, since of all
thresholds the one half-way has the most quorums: when it is within the limit, all are.
-/

namespace QuorumTree.Combination

variable {n : Nat} {limit : Number}

/-- The thresholds such that they and all larger ones have at most `limit` quorums. -/
def thresholdsWithin (n : Nat) (limit : Number) : Set Nat :=
  {r | 1 ≤ r ∧ ∀ m, r ≤ m → m ≤ n → (Number.whole (n.choose m)).le limit = true}

/-- A limit of at least one stands somewhere among the numbers. -/
theorem choose_le_limit_iff (hlimit : (Number.whole 1).le limit = true) {m : Nat} :
    (Number.whole (n.choose m)).le limit = true ↔ limit.lt (.whole (n.choose m)) = false :=
  Number.whole_le_iff (Number.place_ne_nowhere_of_le hlimit)

/-- The walk down ends at its last step with nothing found, or at the first threshold with too many
quorums; all that it passed have few enough. -/
theorem leastFitting_cases {steps m : Nat} (hsteps : steps ≤ m + 1) :
    (leastFitting n limit steps m = 1 ∧
        ∀ k ≤ m, m < k + steps → limit.lt (.whole (n.choose k)) = false) ∨
      ∃ k ≤ m, leastFitting n limit steps m = k + 1 ∧ limit.lt (.whole (n.choose k)) = true ∧
        ∀ j ≤ m, k < j → limit.lt (.whole (n.choose j)) = false := by
  induction steps generalizing m with
  | zero =>
      left
      refine ⟨rfl, fun k hkm hmk => ?_⟩
      omega
  | succ steps ih =>
      rw [leastFitting, binomial_eq_choose]
      by_cases hunfit : limit.lt (.whole (n.choose m)) = true
      · right
        rw [if_pos hunfit]
        refine ⟨m, le_rfl, rfl, hunfit, fun j hjm hmj => ?_⟩
        omega
      · rw [if_neg hunfit]
        rw [Bool.not_eq_true] at hunfit
        have hpassed {k : Nat} (hkm : k ≤ m)
            (hrest : k ≤ m - 1 → k ≠ m → limit.lt (.whole (n.choose k)) = false) :
            limit.lt (.whole (n.choose k)) = false := by
          by_cases hk : k = m
          · rw [hk]
            exact hunfit
          · apply hrest _ hk
            omega
        rcases ih (m := m - 1) (by omega) with ⟨hone, hfit⟩ | ⟨k, hkm, hk, htoo, hfit⟩
        · left
          refine ⟨hone, fun k hkm hmk => hpassed hkm fun hbelow hne => hfit k hbelow ?_⟩
          omega
        · right
          refine ⟨k, by omega, hk, htoo, fun j hjm hkj => hpassed hjm fun hbelow _ => ?_⟩
          exact hfit j hbelow hkj

/-- One above the largest threshold with too many quorums is the least that is left. -/
theorem isLeast_succ (hlimit : (Number.whole 1).le limit = true) {k : Nat} (hk : k < n)
    (htoo : limit.lt (.whole (n.choose k)) = true)
    (hfit : ∀ j ≤ n, k < j → limit.lt (.whole (n.choose j)) = false) :
    IsLeast (thresholdsWithin n limit) (k + 1) := by
  constructor
  · refine ⟨Nat.le_add_left 1 k, fun m hkm hmn => ?_⟩
    rw [choose_le_limit_iff hlimit]
    exact hfit m hmn hkm
  · rintro s ⟨-, hs⟩
    by_contra hlt
    have hkfits := hs k (by omega) hk.le
    rw [choose_le_limit_iff hlimit, htoo] at hkfits
    cases hkfits

/-- Where half of the participants form few enough quorums, any other number of them does. -/
theorem isLeast_one (hlimit : (Number.whole 1).le limit = true)
    (hhalf : limit.lt (.whole (n.choose (n / 2))) = false) :
    IsLeast (thresholdsWithin n limit) 1 := by
  rw [← choose_le_limit_iff hlimit] at hhalf
  refine ⟨⟨le_rfl, fun m _ _ => ?_⟩, fun s hs => hs.1⟩
  exact Number.whole_le_of_le hhalf (Int.ofNat_le.mpr (Nat.choose_le_middle m n))

/-- More participants than the limit: already all but one of them form that many quorums. -/
theorem isLeast_all (hlimit : (Number.whole 1).le limit = true) (hn : 1 ≤ n)
    (hmany : limit.lt (.whole n) = true) :
    IsLeast (thresholdsWithin n limit) n ∧ limit.lt (.whole (n.choose (n - 1))) = true := by
  have hpenultimate : n.choose (n - 1) = n := by
    rw [Nat.choose_symm hn, Nat.choose_one_right]
  have htoo : limit.lt (.whole (n.choose (n - 1))) = true := by
    rw [hpenultimate]
    exact hmany
  refine ⟨?_, htoo⟩
  have hleast := isLeast_succ hlimit (Nat.sub_lt hn Nat.one_pos) htoo fun j hjn hj => ?_
  · rwa [Nat.sub_add_cancel hn] at hleast
  · have hall : j = n := by omega
    rw [← choose_le_limit_iff hlimit, hall, Nat.choose_self]
    exact hlimit

/-- Where there are not more participants than the limit, the answer is that of the walk. -/
theorem minThresholdData_eq_leastFitting (hfew : limit.lt (.whole n) = false) :
    minThresholdData (.int n) (.number limit) =
      .ok (.int (leastFitting n limit (n - n / 2 + 1) n)) := by
  have hminus : ¬ (n : Int) = -1 := by omega
  have hnegative : ¬ (n : Int) < 0 := by omega
  have hwalk : minThreshold n limit = .ok (leastFitting n limit (n - n / 2 + 1) n) := by
    simp [minThreshold, hfew, hminus, hnegative]
  simp [minThresholdData, Datum.toNumber, Datum.toNumber?, Datum.toInt, Datum.toInt?,
    Number.toInt?, hfew, hwalk, bind, Except.bind, pure, Except.pure]

/-- For at least one participant and a limit of at least one, whatever kind of number that is, the
answer is the least threshold such that it and every larger one have at most as many quorums as the
limit says. Unless it is one, the threshold below it has more. -/
theorem minThreshold_isLeast (hn : 1 ≤ n) (hlimit : (Number.whole 1).le limit = true) :
    ∃ r : Nat, minThresholdData (.int n) (.number limit) = .ok (.int r) ∧ 1 ≤ r ∧ r ≤ n ∧
      (∀ m, r ≤ m → m ≤ n → (Number.whole (n.choose m)).le limit = true) ∧
      (r = 1 ∨ limit.lt (.whole (n.choose (r - 1))) = true) ∧
      IsLeast (thresholdsWithin n limit) r := by
  by_cases hmany : limit.lt (.whole n) = true
  · have hanswer : minThresholdData (.int n) (.number limit) = .ok (.int n) := if_pos hmany
    obtain ⟨hleast, htoo⟩ := isLeast_all hlimit hn hmany
    exact ⟨n, hanswer, hn, le_rfl, hleast.1.2, .inr htoo, hleast⟩
  · rw [Bool.not_eq_true] at hmany
    have hanswer := minThresholdData_eq_leastFitting hmany
    have hall : limit.lt (.whole (n.choose n)) = false := by
      rw [← choose_le_limit_iff hlimit, Nat.choose_self]
      exact hlimit
    have hsteps : n - n / 2 + 1 ≤ n + 1 := by omega
    rcases @leastFitting_cases n limit _ _ hsteps with ⟨hone, hfit⟩ | ⟨k, hkn, hk, htoo, hfit⟩
    · have hleast := isLeast_one hlimit (hfit (n / 2) (Nat.div_le_self n 2) (by omega))
      rw [hone] at hanswer
      exact ⟨1, hanswer, le_rfl, hn, hleast.1.2, .inl rfl, hleast⟩
    · have hlt : k < n := by
        apply lt_of_le_of_ne hkn
        rintro rfl
        rw [hall] at htoo
        cases htoo
      have hleast := isLeast_succ hlimit hlt htoo hfit
      rw [hk] at hanswer
      exact ⟨k + 1, hanswer, hleast.1.1, hlt, hleast.1.2, .inr htoo, hleast⟩

/-- Of ten participants seven have to sign for at most 200 quorums. Six of ten form 210 of them;
three of ten form few again, but the walk never gets that far down. -/
theorem minThreshold_isLeast_ten :
    minThresholdData (.int 10) (.int 200) = .ok (.int 7) ∧
      IsLeast (thresholdsWithin 10 (.whole 200)) 7 := by
  obtain ⟨r, hanswer, -, -, -, -, hleast⟩ :=
    @minThreshold_isLeast 10 (.whole 200) (by decide) (by decide)
  have hseven : minThresholdData (.int 10) (.int 200) = .ok (.int 7) := by rfl
  have hsame : (r : Int) = 7 := by simpa using hanswer.symm.trans hseven
  have hr : r = 7 := by omega
  exact ⟨hseven, hr ▸ hleast⟩

end QuorumTree.Combination
