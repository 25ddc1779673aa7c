import QuorumTree.Aggregation.Untrusted
import QuorumTree.Participants
import QuorumTree.Proof.Untrusted
import QuorumTree.Quorum.Untrusted

/-!
Commitments. A policy is committed to by a tree with one leaf for the aggregate key of each of its
quorums, and an output key is the internal key tweaked by the root of that tree. A proof shows that
a quorum is among those committed to; it can be checked against the root from public data alone.
-/

namespace QuorumTree

/-- The committed quorums of a policy, with the threshold and the budget as they were stated. The
internal key is carried as it was given; only an output needs it to be a key. -/
structure Commitment where
  participants : List PublicKey
  threshold : Threshold
  stated : StatedThreshold
  quorums : List (AggregatedKey Nat)
  tree : MerkleTree
  total : Nat
  internalKey : Datum
  budget : Option Number

structure OutputCommitment where
  internalKey : PublicKey
  root : Bytes32
  outputKey : PublicKey
  deriving DecidableEq

namespace OutputCommitment

/-- Zero when the y-coordinate of the output key is even, and one otherwise. -/
def parity (output : OutputCommitment) : Nat :=
  if output.outputKey.hasEvenY then 0 else 1

def script (output : OutputCommitment) : Bytes :=
  0x51 :: 0x20 :: output.outputKey.xOnly.bytes

end OutputCommitment

/-- The internal key with an even y plus the tweak hash times the generator. -/
def tweakKey (internalKey : PublicKey) (root : Bytes32) : Except Fault PublicKey :=
  let even := internalKey.withEvenY
  let tweak := (tweakHash even.xOnly root).toNat
  if groupOrder ≤ tweak then .error .tweakRange
  else match even.addGenerator? tweak with
    | some key => .ok key
    | none => .error .tweakFailed

def OutputCommitment.of (internalKey : PublicKey) (root : Bytes32) :
    Except Fault OutputCommitment :=
  (tweakKey internalKey root).map (⟨internalKey, root, ·⟩)

def OutputCommitment.ofData (internalKey root : Datum) : Except Fault OutputCommitment :=
  match internalKey, root with
  | .key internalKey, .bytes root =>
    match Bytes32.ofBytes? root with
    | some root => OutputCommitment.of internalKey root
    | none => .error (.rootWidth root.length)
  | .key _, root =>
    match root.size? with
    | some size => .error (if size = 32 then .wrongType else .rootWidth size)
    | none => .error .wrongType
  | _, _ => .error .noSuchField

namespace Commitment

variable [Machine]

def root (commitment : Commitment) : Bytes32 :=
  commitment.tree.root

def combinations (commitment : Commitment) : List Combination :=
  commitment.quorums.map (·.combination)

def dropped (commitment : Commitment) : Int :=
  commitment.total - commitment.quorums.length

def summary (commitment : Commitment) : String :=
  s!"<Mast({commitment.stated}, leaves={commitment.tree.leafCount}, " ++
    s!"dropped={commitment.dropped}, root=" ++ Hex.encode commitment.root.bytes ++ ")>"

def output (commitment : Commitment) : Except Fault OutputCommitment :=
  match commitment.internalKey with
  | .key key => OutputCommitment.of key commitment.root
  | _ => .error .noSuchField

/-- The keys of a combination's members; an index of no participant stands for none. -/
def members (commitment : Commitment) (combination : Combination) : List PublicKey :=
  combination.filterMap (commitment.participants[·]?)

def membership (commitment : Commitment) : List (PublicKey × List PublicKey) :=
  commitment.quorums.map fun quorum => (quorum.key, commitment.members quorum.combination)

/-- Why there is no leaf of a combination that pruning left out. -/
def notCommitted (commitment : Commitment) (combination : Combination) (rank : Nat) : Fault :=
  let leafCount := commitment.tree.leafCount
  .telling ((rank :: leafCount :: combination).map fun n : Nat => .whole n)
    (.notCommitted combination rank leafCount)

/-- The place of the leaf of a quorum, which is its rank. -/
def leafIndex (commitment : Commitment) (members : Datum) : Except Fault Nat := do
  let combination ←
    Combination.resolve commitment.participants (.number commitment.stated.m) (← members.items)
  let rank := Combination.rank commitment.threshold.n combination
  if commitment.tree.leafCount ≤ rank then .error (commitment.notCommitted combination rank)
  else .ok rank

def quorumOf (commitment : Commitment) (members : Datum) :
    Except Fault (AggregatedKey Nat) := do
  match commitment.quorums[← commitment.leafIndex members]? with
  | some quorum => .ok quorum
  | none => .error .noSuchPosition

def leafOf (commitment : Commitment) (members : Datum) : Except Fault Bytes32 := do
  commitment.tree.leaf (.whole (← commitment.leafIndex members))

def spendProof (commitment : Commitment) (members : Datum) :
    Except Fault InclusionProof := do
  commitment.tree.prove (.int (← commitment.leafIndex members))

end Commitment

/-- Who commits: the way keys are aggregated, the most quorums a policy may have, and the number of
workers that aggregate. The aggregates do not depend on that number. -/
structure Controller where
  primitive : Primitive
  ceiling : Datum
  workers : Datum := .null

/-- A policy as it is asked for. Its threshold is a number or a threshold for the right number of
participants, and its budget a number or absent; an absent internal key is made from all
participants, and an absent ceiling is the controller's. -/
structure PolicyRequest where
  pubkeys : Datum
  threshold : Datum
  budget : Datum := .null
  internalKey : Datum := .null
  ceiling : Datum := .null

namespace Datum

/-- The threshold that a value states for the given number of participants. -/
def toStated (value : Datum) (participants : Nat) : Except Fault StatedThreshold :=
  match value with
  | threshold t =>
    if t.n.same (.whole participants) then .ok t
    else .error (.telling [t.m, t.n] (.thresholdMismatch t.m t.n participants))
  | value => do StatedThreshold.of (← value.toNumber) (.whole participants)

def orElse : Datum → Datum → Datum
  | null, other => other
  | value, _ => value

end Datum

def report (notices : List Notice) : Action Unit :=
  modify (Ledger.report notices)

/-- The internal key of a policy: the one given, or the aggregate of all participants. -/
def Controller.internalKeyOf (controller : Controller) (participants : List PublicKey) :
    Datum → Action Datum
  | .null => do return .key (← aggregate controller.primitive participants).key
  | given => return given

variable [Machine]

/-- Commits to a policy, and tells how many quorums pruning left out. Nothing is aggregated before
the whole policy was found acceptable. -/
def Controller.commitPruned (controller : Controller) (request : PolicyRequest) :
    Action (Commitment × Number) := do
  let participants ← sortParticipants (← request.pubkeys.items)
  let stated ← request.threshold.toStated participants.length
  let threshold ← stated.settle
  let ceiling ← (request.ceiling.orElse controller.ceiling).toNumber
  let total ← Combination.withinCeiling stated (Combination.count threshold) ceiling
  let threshold ← Combination.listable threshold
  let pruned ← pruneData (Source.quorums threshold) (.int total) request.budget
  report pruned.notices
  checkWorkers controller.workers
  let quorums ←
    aggregateCombinations controller.primitive (participantOf participants) pruned.retained
  let tree ← MerkleTree.ofLeaves (quorums.map AggregatedKey.leafHash)
  let internalKey ← controller.internalKeyOf participants request.internalKey
  report [.committed stated tree.leafCount tree.depth tree.root]
  return (⟨participants, threshold, stated, quorums, tree, total, internalKey, pruned.budget⟩,
    pruned.dropped)

def Controller.commit (controller : Controller) (request : PolicyRequest) : Action Commitment :=
  Prod.fst <$> controller.commitPruned request

/-- The lesser of a count and a budget; of two equal ones it is the count. -/
def withinBudget (count : Nat) (budget : Option Number) : Number :=
  match budget with
  | some budget => if budget.lt (.whole count) then budget else .whole count
  | none => .whole count

/-- What a verifier re-derives of a quorum: its aggregate key and the number of leaves. -/
def Controller.rederive (controller : Controller) (request : PolicyRequest)
    (members : Datum) : Action (PublicKey × Number) := do
  let participants ← sortParticipants (← request.pubkeys.items)
  let stated ← StatedThreshold.of (← request.threshold.toNumber) (.whole participants.length)
  let combination ← Combination.resolve participants (.number stated.m) (← members.items)
  let made ← aggregateCombination controller.primitive (participantOf participants) combination
  let count := Combination.count (← stated.settle)
  return (made.key, withinBudget count (← request.budget.toOptionalNumber))

/-- Checks a proof for a quorum from public data: its aggregate key is made again from the
participants, and the proof has to be as long as the tree of the policy is deep. -/
def Controller.verifySubset (controller : Controller) (request : PolicyRequest)
    (members proof root : Datum) : Action Bool := fun ledger =>
  match (controller.rederive request members).run ledger with
  | (.ok (key, leafCount), ledger) =>
    (.ok (verifySpend root (.key key) proof (.number leafCount)), ledger)
  | (.error fault, ledger) =>
    (if fault.kind.isExpected then .ok false else .error fault, ledger)

end QuorumTree
