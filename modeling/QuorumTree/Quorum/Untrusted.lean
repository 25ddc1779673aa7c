import QuorumTree.HexText
import QuorumTree.Quorum.Pruning

/-!
Quorums from untrusted values. A value of the wrong kind is refused where it is first used, so a
policy that is refused anyway is refused for its numbers.
-/

namespace QuorumTree

/-- The threshold of values of any kind. The participants are looked at before the signers. -/
def StatedThreshold.ofData (m n : Datum) : Except Fault StatedThreshold := do
  let participants ← n.toNumber
  if participants.lt (.whole 1) then
    .error (.telling [participants] (.noParticipantCount participants))
  StatedThreshold.of (← m.toNumber) participants

namespace Combination

def memberIndex (n : Datum) : Datum → Except Fault Int
  | .int index => do
    let refusal := Fault.telling (.whole index :: n.numbers) (.memberRange index n.display)
    if index < 0 then .error refusal
    if (Number.whole index).lt (← n.toNumber) then .ok index else .error refusal
  | value => .error (.memberType value.kindLabel)

def isAscending : List Int → Bool
  | a :: b :: rest => a < b && isAscending (b :: rest)
  | _ => true

def ofMembers (members : List Datum) (n m : Datum) : Except Fault Combination := do
  if !(Datum.int members.length).same m then
    .error (.telling m.numbers (.memberCount m.display members.length))
  let indices ← members.mapM (memberIndex n)
  if isAscending indices then .ok (indices.map Int.toNat)
  else .error (.telling (indices.map .whole) (.memberOrder indices))

def ofData (combination n m : Datum) : Except Fault Combination := do
  ofMembers (← combination.items) n m

/-- The rank of the combination that a value spells. The first combination of all has the rank zero
among any number of participants; otherwise they are counted. -/
def rankOfData (combination n : Datum) : Except Fault Nat := do
  let members ← combination.items
  let combination ← ofMembers members n (.int members.length)
  if combination = List.range combination.length then return 0
  return rank (← n.toInt).toNat combination

def countOfData (n m : Datum) : Except Fault Nat :=
  StatedThreshold.ofData m n >>= countOf

def checkCeilingData (n m ceiling : Datum) : Except Fault Nat := do
  let stated ← StatedThreshold.ofData m n
  let count ← countOf stated
  withinCeiling stated count (← ceiling.toNumber)

def listableData [Machine] (n m : Datum) : Except Fault Threshold := do
  (← StatedThreshold.ofData m n).settle >>= listable

def enumerateData [Machine] (n m ceiling : Datum) : Except Fault (List Combination) := do
  let _ ← checkCeilingData n m ceiling
  return all (← listableData n m)

/-- How many items a value asks for; the absent value asks for all of them. -/
def readLimit : Datum → Except Fault (Option Nat)
  | .null => .ok none
  | value =>
    match value.toInt? with
    | some n =>
      if 0 ≤ n ∧ n ≤ maxBudget then .ok (some n.toNat)
      else .error (if -(2 ^ 63) ≤ n ∧ n < -1 then .negativeLimit else .budgetTooLarge)
    | none => .error .budgetTooLarge

def firstData [Machine] (n m limit : Datum) : Except Fault (List Combination) := do
  let threshold ← listableData n m
  ((Source.quorums threshold).read (← readLimit limit)).answer

def atRankData (rank n m : Datum) : Except Fault Combination := do
  let stated ← StatedThreshold.ofData m n
  let _ ← countOf stated
  atRank (← rank.toNumber) stated

/-- The smallest threshold with few enough quorums, for values of any kind. Participants that are
more than the limit are answered with as they were given. -/
def minThresholdData (n limit : Datum) : Except Fault Datum := do
  let bound ← limit.toNumber
  if bound.lt (← n.toNumber) then return n
  return .int (← minThreshold (← n.toInt) bound)

end Combination

/-- Keeps the first items of a source within a budget of any kind. A total that is no number matters
to a budget before anything is read, and to the count of what was left out afterwards. -/
def pruneData {α : Type} (source : FiniteSource α) (total budget : Datum) :
    Except Fault (Pruned α) := do
  let budget ← budget.toOptionalNumber
  checkBudget budget
  match total.toNumber? with
  | some total => (source.prune total budget).answer
  | none =>
    if budget.isNone then
      let _ ← (source.read none).answer
    .error .wrongType

end QuorumTree
