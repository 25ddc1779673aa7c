import QuorumTree.Machine
import QuorumTree.Quorum.Threshold

/-!
Minimal quorums. A larger set of signers can always act through `m` of its members, so only sets of
exactly `m` are listed. They come in lexicographic order of their ascending index lists, and a
quorum's rank is its place in that order; ranks are computed from binomial coefficients in both
directions, without listing anything.
-/

namespace QuorumTree

/-- The indices of a quorum's members, in ascending order. -/
abbrev Combination := List Nat

/-- The sublists of length `m` in lexicographic order of the positions taken. -/
def choose {α : Type} : Nat → List α → List (List α)
  | 0, _ => [[]]
  | _ + 1, [] => []
  | m + 1, x :: xs =>
    if xs.length < m then []
    else (choose m xs).map (x :: ·) ++ choose (m + 1) xs

theorem choose_eq_nil {α : Type} {m : Nat} {xs : List α} (h : xs.length < m) :
    choose m xs = [] := by
  cases m with
  | zero => omega
  | succ m =>
      cases xs with
      | nil => rfl
      | cons x xs => exact if_pos (Nat.lt_of_succ_lt_succ h)

/-- The selections with the first item come before those without it; the length that `choose` looks
at only saves work. -/
theorem choose_succ_cons {α : Type} (m : Nat) (x : α) (xs : List α) :
    choose (m + 1) (x :: xs) = (choose m xs).map (x :: ·) ++ choose (m + 1) xs := by
  rw [choose]
  split
  · next h =>
      rw [choose_eq_nil h, choose_eq_nil (Nat.lt_succ_of_lt h)]
      rfl
  · rfl

/-- The number of ways to choose `k` of `n`, multiplied out along the shorter side. -/
def binomial (n k : Nat) : Nat :=
  if n < k then 0
  else (List.range (min k (n - k))).foldl (fun product i => product * (n - i) / (i + 1)) 1

namespace Combination

def all (t : Threshold) : List Combination :=
  choose t.m (List.range t.n)

def count (t : Threshold) : Nat :=
  binomial t.n t.m

/-- How many quorums a threshold has, as far as the shorter side of the selection can be counted
along. -/
def checkedCount (t : Threshold) : Except Fault Nat :=
  if 2 ^ 63 ≤ min t.m (t.n - t.m) then .error .selectionTooWide else .ok (count t)

def countOf (stated : StatedThreshold) : Except Fault Nat :=
  stated.settle >>= checkedCount

def withinCeiling (t : StatedThreshold) (count : Nat) (ceiling : Number) : Except Fault Nat :=
  if ceiling.lt (.whole count) then
    .error (.telling [t.n, t.m, .whole count, ceiling] (.tooManyCombinations t.n t.m count ceiling))
  else .ok count

def checkCeiling (stated : StatedThreshold) (ceiling : Number) : Except Fault Nat := do
  withinCeiling stated (← countOf stated) ceiling

/-- A threshold whose quorums can be listed. For that the indices of all participants are held. -/
def listable [Machine] (t : Threshold) : Except Fault Threshold :=
  if 2 ^ 63 ≤ t.n then .error .selectionTooWide
  else if Machine.holdsIndices t.n then .ok t
  else .error .outOfMemory

def enumerate [Machine] (stated : StatedThreshold) (ceiling : Number) : Except Fault
    (List Combination) := do
  let _ ← checkCeiling stated ceiling
  return all (← stated.settle >>= listable)

/-- The rank among the combinations of the remaining indices, the least of which is `next`. -/
def rankFrom (n : Nat) : Nat → Combination → Nat
  | _, [] => 0
  | next, index :: rest =>
    (List.range' next (index - next)).foldr
      (fun skipped after => binomial (n - skipped - 1) rest.length + after)
      (rankFrom n (index + 1) rest)

/-- The place of a combination among those of its size in lexicographic order. -/
def rank (n : Nat) (combination : Combination) : Nat :=
  rankFrom n 0 combination

/-- The combination of `m` of the `pool` indices from `next` on that has the given rank. -/
def unrankFrom : Nat → Nat → Nat → Nat → Combination
  | 0, _, _, _ => []
  | _ + 1, _, 0, _ => []
  | pool + 1, next, m + 1, rank =>
    let block := binomial pool m
    if rank < block then next :: unrankFrom pool (next + 1) m rank
    else unrankFrom pool (next + 1) (m + 1) (rank - block)

def unrank (t : Threshold) (rank : Nat) : Combination :=
  unrankFrom t.n 0 t.m rank

/-- The combination that is found by walking down from a rank which is lowered in floating-point
arithmetic. A rank that rounding keeps too high runs past the end. -/
def descend : Nat → Nat → Nat → Number → Except Fault Combination
  | _, _, 0, _ => .ok []
  | 0, _, _ + 1, _ => .error .negativeBinomial
  | pool + 1, next, m + 1, rank =>
    let block := binomial pool m
    if rank.lt (.whole block) then (descend pool (next + 1) m rank).map (next :: ·)
    else match rank.add? (.whole (-block)) with
      | some rank => descend pool (next + 1) (m + 1) rank
      | none => .error .selectionTooWide

def atRank (rank : Number) (stated : StatedThreshold) : Except Fault Combination := do
  let t ← stated.settle
  let total ← checkedCount t
  if (Number.whole 0).le rank && rank.lt (.whole total) then
    match rank.toInt? with
    | some rank => .ok (unrank t rank.toNat)
    | none => descend t.n 0 t.m rank
  else
    .error (.telling [rank, stated.n, stated.m, .whole total]
      (.rankRange rank stated.n stated.m total))

/-- Walks down from a threshold while its quorums stay within the limit; `steps` thresholds are
looked at. -/
def leastFitting (n : Nat) (limit : Number) : Nat → Nat → Nat
  | 0, _ => 1
  | steps + 1, m =>
    if limit.lt (.whole (binomial n m)) then m + 1 else leastFitting n limit steps (m - 1)

/-- The smallest threshold such that it and every larger one has at most `limit` quorums. Below
half of the participants the counts only fall again, so no threshold there is looked at. -/
def minThreshold (n : Int) (limit : Number) : Except Fault Int :=
  if limit.lt (.whole n) then .ok n
  else if n = -1 then .error .negativeBinomial
  else if n < 0 then .ok 1
  else
    let n := n.toNat
    .ok (leastFitting n limit (n - n / 2 + 1) n)

end Combination

end QuorumTree
