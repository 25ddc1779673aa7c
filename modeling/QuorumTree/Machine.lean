import QuorumTree.Power

/-!
Machines. How much a program can hold in memory is up to the machine that it runs on, so what
depends on it is said of every machine.
-/

namespace QuorumTree

/-- What a machine has the memory for: byte strings of zeros, and lists of indices. -/
class Machine where
  holdsZeros (count : Nat) : Bool
  holdsIndices (count : Nat) : Bool

/-- The machine that programs run on where no other is given. -/
instance (priority := low) usualMachine : Machine where
  holdsZeros count := decide (count < 2 ^ 36)
  holdsIndices count := decide (count < 2 ^ 36)

end QuorumTree
