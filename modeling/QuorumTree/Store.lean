import QuorumTree.Commitment
import QuorumTree.Store.Column

/-!
The store of commitments. Only public data is kept, and it could have been altered since; loading a
commitment makes it anew from its participants and compares it with what was kept.
-/

namespace QuorumTree

/-- A commitment as it is kept. Every column but the number of the row holds whatever was written
there. -/
structure StoredCommitment where
  id : Int
  name : Datum
  threshold : Datum
  participants : Datum
  budget : Datum
  dropped : Datum
  merkleRoot : Datum
  internalKey : Datum
  outputKey : Datum
  leafHashes : Datum

/-- The commitments kept, in the order in which they were saved. -/
structure Store where
  records : List StoredCommitment

namespace StoredCommitment

def of (id : Int) (name : Datum) (commitment : Commitment) (output : OutputCommitment) :
    StoredCommitment where
  id := id
  name := name
  threshold := .number commitment.stated.m
  participants := .list (commitment.participants.map (.text ·.hex))
  budget := match commitment.budget with
    | some budget => .number budget
    | none => .null
  dropped := .int commitment.dropped
  merkleRoot := .text (Hex.encode commitment.root.bytes)
  internalKey := .text output.internalKey.hex
  outputKey := .text output.outputKey.hex
  leafHashes := .list (commitment.tree.leaves.map fun leaf => .text (Hex.encode leaf.bytes))

def set (record : StoredCommitment) (column : Column) (value : Datum) : StoredCommitment :=
  match column with
  | .id => { record with id := value.toInt?.getD record.id }
  | .name => { record with name := value }
  | .threshold => { record with threshold := value }
  | .participants => { record with participants := value }
  | .budget => { record with budget := value }
  | .dropped => { record with dropped := value }
  | .merkleRoot => { record with merkleRoot := value }
  | .internalKey => { record with internalKey := value }
  | .outputKey => { record with outputKey := value }
  | .leafHashes => { record with leafHashes := value }
  | .createdAt => record

/-- The value of a column; the time of a row is none. -/
def get? (record : StoredCommitment) : Column → Option Datum
  | .id => some (.int record.id)
  | .name => some record.name
  | .threshold => some record.threshold
  | .participants => some record.participants
  | .budget => some record.budget
  | .dropped => some record.dropped
  | .merkleRoot => some record.merkleRoot
  | .internalKey => some record.internalKey
  | .outputKey => some record.outputKey
  | .leafHashes => some record.leafHashes
  | .createdAt => none

def update (record : StoredCommitment) (values : List (Column × Datum)) :
    Except Fault StoredCommitment := do
  let kept ← Column.keepAll values
  return kept.foldl (fun record (column, value) => record.set column value) record

/-- The row as its columns keep it. Its number is not among what is written. -/
def kept (record : StoredCommitment) : Except Fault StoredCommitment :=
  record.update ((Column.all.filter (· ≠ .id)).filterMap fun column =>
    (record.get? column).map (column, ·))

def changes (record : StoredCommitment) (values : List (Column × Datum)) : List (Column × Datum) :=
  Column.all.filterMap fun column => do
    let value ← values.lookup column
    if (record.get? column).any value.same then none else some (column, value)

def countOf (column : Datum) : Except Fault Nat :=
  match column.size? with
  | some size => .ok size
  | none => .error .wrongType

/-- The bytes that the texts of a row take. -/
def textBytes (record : StoredCommitment) : Nat :=
  record.name.textBytes + record.participants.textBytes + record.merkleRoot.textBytes +
    record.internalKey.textBytes + record.outputKey.textBytes + record.leafHashes.textBytes

def summary (record : StoredCommitment) : Except Fault String := do
  let participants ← countOf record.participants
  let leaves ← countOf record.leafHashes
  return s!"<StoredMast(name={record.name.display}, id={record.id}, " ++
    s!"threshold={record.threshold.display}-of-{participants}, leaves={leaves}, " ++
    s!"dropped={record.dropped.display}, root={record.merkleRoot.display})>"

/-- The tree over the kept leaves; they have to hash to the kept root. -/
def loadTree (record : StoredCommitment) : Except Fault MerkleTree := do
  let leaves ← (← record.leafHashes.items).mapM Datum.readHash
  let tree ← MerkleTree.ofLeaves leaves
  let root ← record.merkleRoot.readHash
  if tree.root = root then .ok tree
  else .error (.telling record.name.numbers (.storedLeaves record.name.display))

/-- The policy of a row, as it is asked for when it is made anew. It was accepted once, so its own
number of quorums is the ceiling. -/
def request (record : StoredCommitment) : Except Fault PolicyRequest := do
  let participants ← record.participants.readKeys
  let internalKey ← PublicKey.ofHexDatum record.internalKey
  if participants.isEmpty then .error (.noParticipantCount (.whole 0))
  let stated ← StatedThreshold.of (← record.threshold.toNumber) (.whole participants.length)
  let ceiling := Combination.count (← stated.settle)
  return {
    pubkeys := .list (participants.map .key)
    threshold := record.threshold
    budget := record.budget
    internalKey := .key internalKey
    ceiling := .int ceiling }

def agreesOnDropped (record : StoredCommitment) (dropped : Int) : Bool :=
  record.dropped.toNumber?.any (Number.whole dropped).same

def check (record : StoredCommitment) (name : String) (commitment : Commitment) :
    Except Fault Commitment := do
  let root ← record.merkleRoot.readHash
  if commitment.root ≠ root then
    .error (.rebuiltRoot commitment.root.bytes name record.merkleRoot.display)
  else if ¬ record.agreesOnDropped commitment.dropped then
    .error (.telling (.whole commitment.dropped :: record.dropped.numbers)
      (.rebuiltDropped name commitment.dropped record.dropped.display))
  else .ok commitment

end StoredCommitment

def Datum.isSameName : Datum → Datum → Bool
  | .text a, .text b => a == b
  | .bytes a, .bytes b => a == b
  | _, _ => false

namespace Store

def empty : Store := ⟨[]⟩

def find? (store : Store) (name : Datum) : Option StoredCommitment :=
  store.records.find? (·.name.isSameName name)

def findData (store : Store) (name : Datum) : Except Fault StoredCommitment := do
  name.checkCell
  match store.find? name.keptAsText with
  | some record => .ok record
  | none => .error .unknownName

def find (store : Store) (name : String) : Except Fault StoredCommitment :=
  store.findData (.text name)

/-- The number for the next row: one more than the greatest in use. -/
def nextId (store : Store) : Int :=
  match (store.records.map (·.id)).max? with
  | some greatest => greatest + 1
  | none => 1

def insert (store : Store) (record : StoredCommitment) : Except Fault Store :=
  if store.records.any (·.name.isSameName record.name) then .error .nameTaken
  else .ok ⟨store.records ++ [record]⟩

/-- Saves a commitment under a name of any kind, and answers with its row as it was written and the
store that holds it. -/
def saveData (store : Store) (commitment : Commitment) (name : Datum) :
    Except Fault (StoredCommitment × Store) := do
  let output ← commitment.output
  let record := StoredCommitment.of store.nextId name commitment output
  return (record, ← store.insert (← record.kept))

def save (store : Store) (commitment : Commitment) (name : String) :
    Except Fault (StoredCommitment × Store) :=
  store.saveData commitment (.text name)

/-- Overwrites columns of the row of a name of any kind, as far as they differ. No two rows have one
name or one number. -/
def overwrite (store : Store) (name : Datum) (columns : List (Column × Datum)) :
    Except Fault Store := do
  let record ← store.findData name
  let altered ← record.update (record.changes columns)
  let others := store.records.filter (·.id ≠ record.id)
  if others.any fun other => other.id = altered.id || other.name.isSameName altered.name then
    .error .nameTaken
  return ⟨store.records.map fun other => if other.id = record.id then altered else other⟩

variable [Machine]

/-- Makes the commitment of a name of any kind anew and checks it against its row. -/
def loadData (store : Store) (controller : Controller) (name : Datum) : Action Commitment := do
  let record ← store.findData name
  let request ← record.request
  let commitment ← controller.commit request
  record.check name.display commitment

def load (store : Store) (controller : Controller) (name : String) : Action Commitment :=
  store.loadData controller (.text name)

end Store

end QuorumTree
