import QuorumTree.Notice
import QuorumTree.Quorum.Source

/-!
Pruning: keeping the first quorums within a budget. Those kept have the rank they had before, so
the place of a leaf is the rank of its quorum.
-/

namespace QuorumTree

/-- What pruning kept, with the total and the budget as they were given and the number of items that
were taken from the source. -/
structure Pruned (α : Type) where
  retained : List α
  total : Number
  budget : Option Number
  consumed : Nat

namespace Pruned

/-- How many items were left out, as far as the stated total is right. -/
def dropped {α : Type} (p : Pruned α) : Number :=
  (p.total.add? (.whole (-p.retained.length))).getD p.total

def isCommitted {α : Type} (p : Pruned α) (rank : Number) : Bool :=
  (Number.whole 0).le rank && rank.lt (.whole p.retained.length)

/-- What pruning reports: nothing, unless the count kept differs from the total. -/
def notices {α : Type} (p : Pruned α) : List Notice :=
  if p.dropped.same (.whole 0) then []
  else [.pruned p.dropped p.total p.budget p.retained.length]

end Pruned

/-- The most items that a budget below the total may ask for. -/
def maxBudget : Int := 2 ^ 63 - 1

def checkBudget (budget : Option Number) : Except Fault Unit :=
  match budget with
  | some given =>
    if given.lt (.whole 0) then .error (.telling [given] (.negativeBudget given)) else .ok ()
  | none => .ok ()

/-- The limit that a budget sets to reading: none when it is absent or not below the stated total,
and otherwise the items that it counts. -/
def limitWithin (total : Number) (budget : Option Number) : Except Fault (Option Nat) :=
  match budget with
  | none => .ok none
  | some budget =>
    if total.le budget then .ok none
    else match budget.toInt? with
      | some count =>
        if maxBudget < count then .error .budgetTooLarge else .ok (some count.toNat)
      | none => .error .budgetTooLarge

/-- What was read, as what pruning kept. -/
def Reading.pruned {α : Type} (reading : Reading (List α)) (total : Number)
    (budget : Option Number) : Reading (Pruned α) :=
  ⟨reading.answer.map (⟨·, total, budget, reading.consumed⟩), reading.consumed⟩

/-- Keeps the first items of a source within the budget, or all of them. A budget that is refused is
so before the source is asked for anything. -/
def prune {α : Type} (source : Source α) (total : Number) (budget : Option Number) :
    Option (Reading (Pruned α)) :=
  match checkBudget budget >>= fun _ => limitWithin total budget with
  | .ok limit => (source.read limit).map (·.pruned total budget)
  | .error fault => some ⟨.error fault, 0⟩

namespace FiniteSource

variable {α : Type}

theorem isSome_prune (source : FiniteSource α) (total : Number) (budget : Option Number) :
    (QuorumTree.prune source.toSource total budget).isSome := by
  unfold QuorumTree.prune
  split
  · rw [Option.isSome_map]
    exact source.isSome_read _
  · rfl

/-- Pruning a source that ends always comes to something. -/
def prune (source : FiniteSource α) (total : Number) (budget : Option Number) :
    Reading (Pruned α) :=
  (QuorumTree.prune source.toSource total budget).get (source.isSome_prune total budget)

end FiniteSource

end QuorumTree
