import QuorumTree.Aggregation.Cache
import QuorumTree.Notice

/-!
Aggregating with a memory and a record. The ledger holds the cache, the key lists that were asked
for, and the notices given; it outlives a refusal.
-/

namespace QuorumTree

structure Ledger where
  cache : Option Cache
  calls : List (List PublicKey)
  notices : List Notice
  deriving DecidableEq

/-- A computation that may be refused and that keeps a ledger either way. -/
abbrev Action := ExceptT Fault (StateM Ledger)

namespace Ledger

def withCache (cache : Option Cache) : Ledger :=
  ⟨cache, [], []⟩

/-- Records that the aggregate of a key list was asked for. -/
def call (keys : List PublicKey) (ledger : Ledger) : Ledger :=
  { ledger with calls := ledger.calls ++ [keys] }

def report (notices : List Notice) (ledger : Ledger) : Ledger :=
  { ledger with notices := ledger.notices ++ notices }

def get (keys : List PublicKey) (ledger : Ledger) : Option Aggregate × Ledger :=
  match ledger.cache with
  | none => (none, ledger)
  | some cache =>
    let (found, cache) := cache.get keys
    (found, { ledger with cache := some cache })

def put (keys : List PublicKey) (aggregate : Aggregate) (ledger : Ledger) : Aggregate × Ledger :=
  match ledger.cache with
  | none => (aggregate, ledger)
  | some cache =>
    let (kept, cache) := cache.put keys aggregate
    (kept, { ledger with cache := some cache })

end Ledger

/-- How the refusal of a primitive is passed on: an invalid value is told to be about the keys. -/
def Fault.ofPrimitive (fault : Fault) : Fault :=
  if fault.kind = .aggregation then fault
  else if fault.kind.isInvalidValue then .rejectedKeys fault.message
  else fault

/-- The aggregate of keys in the order given, from the cache where it has one. -/
def aggregate (primitive : Primitive) (keys : List PublicKey) : Action Aggregate := do
  modify (Ledger.call keys)
  match ← modifyGet (Ledger.get keys) with
  | some found => return found
  | none =>
    match primitive keys with
    | .error fault => throw fault.ofPrimitive
    | .ok made => modifyGet (Ledger.put keys made)

/-- The aggregate of the keys of a combination, however its members are given. -/
structure AggregatedKey (ι : Type) where
  combination : List ι
  key : PublicKey
  coefficients : List Int
  deriving DecidableEq

def AggregatedKey.leafHash {ι : Type} (aggregated : AggregatedKey ι) : Bytes32 :=
  QuorumTree.leafHash aggregated.key.xOnly

/-- The aggregate of a combination whose members' keys are found by `member`. -/
def aggregateCombination {ι : Type} (primitive : Primitive) (member : ι → Except Fault PublicKey)
    (combination : List ι) : Action (AggregatedKey ι) := do
  let keys ← (combination.mapM member : Except Fault (List PublicKey))
  let made ← aggregate primitive keys
  return ⟨combination, made.key, made.coefficients⟩

/-- The aggregates of combinations, in order; the first refusal ends it. -/
def aggregateCombinations {ι : Type} (primitive : Primitive)
    (member : ι → Except Fault PublicKey) :
    List (List ι) → Action (List (AggregatedKey ι))
  | [] => return []
  | combination :: rest => do
    let made ← aggregateCombination primitive member combination
    return made :: (← aggregateCombinations primitive member rest)

/-- The participant at a position, where negative positions count from the end. -/
def participantAt (participants : List PublicKey) (position : Int) : Except Fault PublicKey :=
  let place := if position < 0 then participants.length + position else position
  match (if 0 ≤ place then participants[place.toNat]? else none) with
  | some key => .ok key
  | none => .error .noSuchPosition

def participantOf (participants : List PublicKey) (index : Nat) : Except Fault PublicKey :=
  participantAt participants index

end QuorumTree
