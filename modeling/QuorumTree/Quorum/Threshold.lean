import QuorumTree.Fault

/-!
Thresholds: how many of the participants have to sign. A threshold is stated in numbers of any kind,
which are compared by value; it settles a policy when both of them count.
-/

namespace QuorumTree

/-- A policy under which `m` of `n` participants sign. -/
structure Threshold where
  m : Nat
  n : Nat
  one_le : 1 ≤ m
  le : m ≤ n
  deriving DecidableEq

/-- A threshold as it is stated. -/
structure StatedThreshold where
  m : Number
  n : Number
  deriving DecidableEq

namespace StatedThreshold

/-- The threshold of `m` among `n`, or the first reason why there is none. -/
def of (m n : Number) : Except Fault StatedThreshold :=
  if n.lt (.whole 1) then .error (.telling [n] (.noParticipantCount n))
  else if m.lt (.whole 1) then .error (.telling [m] (.thresholdTooSmall m))
  else if n.lt m then .error (.telling [m, n] (.thresholdTooLarge m n))
  else .ok ⟨m, n⟩

instance : ToString StatedThreshold where
  toString t := s!"{t.m}-of-{t.n}"

end StatedThreshold

namespace Threshold

def of (m n : Int) : Except Fault Threshold :=
  if n < 1 then .error (.telling [.whole n] (.noParticipantCount (.whole n)))
  else if hm : m < 1 then .error (.telling [.whole m] (.thresholdTooSmall (.whole m)))
  else if hn : m > n then
    .error (.telling [.whole m, .whole n] (.thresholdTooLarge (.whole m) (.whole n)))
  else .ok ⟨m.toNat, n.toNat, by omega, by omega⟩

def stated (t : Threshold) : StatedThreshold :=
  ⟨.whole t.m, .whole t.n⟩

instance : ToString Threshold where
  toString t := toString t.stated

theorem of_natCast (t : Threshold) : of t.m t.n = .ok t := by
  have hm := t.one_le
  have hn := t.le
  unfold of
  rw [if_neg (by omega), dif_neg (by omega), dif_neg (by omega)]
  rfl

end Threshold

namespace StatedThreshold

/-- The policy that a threshold settles. Both of its numbers have to count something. -/
def settle (t : StatedThreshold) : Except Fault Threshold :=
  match t.m.toInt?, t.n.toInt? with
  | some m, some n => Threshold.of m n
  | _, _ => .error .wrongType

@[simp] theorem settle_stated (t : Threshold) : t.stated.settle = .ok t :=
  Threshold.of_natCast t

end StatedThreshold

end QuorumTree
