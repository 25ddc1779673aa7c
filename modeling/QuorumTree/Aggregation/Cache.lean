import QuorumTree.Aggregation.MuSig

/-!
A bounded memory of aggregates. An entry is never replaced once written, and nothing is dropped to
make room: a full cache stores no more until it is cleared.
-/

namespace QuorumTree

/-- Aggregates by ordered key list, with counts of the lookups that found one and that did not. A
cache without a greatest number of entries is never full. -/
structure Cache where
  maxEntries : Option Nat
  entries : List (List PublicKey × Aggregate)
  hits : Nat
  misses : Nat
  deriving DecidableEq

namespace Cache

/-- An empty cache that is full as soon as it has no fewer entries than the given number. -/
def create (maxEntries : Number) : Except Fault Cache :=
  if maxEntries.lt (.whole 0) then
    .error (.telling [maxEntries] (.negativeCacheSize maxEntries))
  else .ok ⟨maxEntries.ceiling?.map Int.toNat, [], 0, 0⟩

def size (cache : Cache) : Nat :=
  cache.entries.length

def isFull (cache : Cache) : Bool :=
  cache.maxEntries.any (· ≤ cache.size)

def find? (cache : Cache) (keys : List PublicKey) : Option Aggregate :=
  cache.entries.lookup keys

def contains (cache : Cache) (keys : List PublicKey) : Bool :=
  (cache.find? keys).isSome

/-- Looks a key list up and counts whether it was found. -/
def get (cache : Cache) (keys : List PublicKey) : Option Aggregate × Cache :=
  match cache.find? keys with
  | some found => (some found, { cache with hits := cache.hits + 1 })
  | none => (none, { cache with misses := cache.misses + 1 })

/-- Writes an entry where there is none and room for one, and answers with what callers are to use:
the entry that was there, or else the one given. -/
def put (cache : Cache) (keys : List PublicKey) (aggregate : Aggregate) : Aggregate × Cache :=
  match cache.find? keys with
  | some found => (found, cache)
  | none =>
    if cache.isFull then (aggregate, cache)
    else (aggregate, { cache with entries := (keys, aggregate) :: cache.entries })

def clear (cache : Cache) : Cache :=
  { cache with entries := [], hits := 0, misses := 0 }

end Cache

end QuorumTree
