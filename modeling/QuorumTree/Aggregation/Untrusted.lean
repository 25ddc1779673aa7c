import QuorumTree.Aggregation.Ledger
import QuorumTree.HexText

/-!
Aggregating what untrusted values name. Everything that is to hold items is looked at before
anything is aggregated, and then the number of workers; a member is looked at when the aggregate of
its combination is made.
-/

namespace QuorumTree

def participantAtData (participants : List PublicKey) (position : Datum) :
    Except Fault PublicKey := do
  participantAt participants (← position.toInt)

/-- Looks at a number of workers, which has to be a number. What holds nothing asks for the usual
number. -/
def checkWorkers (workers : Datum) : Except Fault Unit :=
  if workers.size? = some 0 then .ok () else workers.toOptionalNumber.map fun _ => ()

def aggregateData (primitive : Primitive) (workers : Datum) (participants : List PublicKey)
    (combinations : Datum) : Action (List (AggregatedKey Datum)) := do
  let combinations ←
    (combinations.items >>= (·.mapM Datum.items) : Except Fault (List (List Datum)))
  checkWorkers workers
  aggregateCombinations primitive (participantAtData participants) combinations

def aggregateUnder (primitive : Primitive) (keys : List PublicKey) (combination : Datum) :
    Action (AggregatedKey Datum) := do
  let combination ← (combination.items : Except Fault (List Datum))
  let made ← aggregate primitive keys
  return ⟨combination, made.key, made.coefficients⟩

def secondValue? : List Datum → Option Datum
  | [] => none
  | first :: rest => rest.find? fun value => !value.same first

/-- The coefficient of a value of any kind, which has to be a key unless it is equal to the second.
-/
def keyCoefficientData (listHash : Bytes) (key second : Datum) : Except Fault Nat :=
  match key, second with
  | .key key, .key second => .ok (keyCoefficient listHash key (some second))
  | .key key, _ => .ok (keyCoefficient listHash key none)
  | key, second => if key.same second then .ok 1 else .error .noSuchField

namespace Cache

def createData (maxEntries : Datum) : Except Fault Cache :=
  maxEntries.toNumber >>= create

end Cache

end QuorumTree
