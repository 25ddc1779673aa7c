import QuorumTree.Store

/-!
A store as text: one line a row, and on it the columns, each as a letter for its kind and its
content. Texts are written in hexadecimal, so neither blanks nor line breaks get in the way.
-/

namespace QuorumTree

namespace Datum

/-- A number, a text or nothing, as it is written in a row. -/
def writeCell : Datum → String
  | int n => "i" ++ toString n
  | text s => "t" ++ Hex.encode (Bytes.ofText s)
  | _ => "n"

def write : Datum → String
  | list cells => "l" ++ String.intercalate "," (cells.map writeCell)
  | cell => cell.writeCell

def textOfBytes? (bytes : Bytes) : Option String :=
  String.fromUTF8? ⟨bytes.toArray⟩

def readCell? (written : String) : Option Datum :=
  match written.toList with
  | ['n'] => some .null
  | 'i' :: digits => (Text.integer? (String.ofList digits)).map .int
  | 't' :: digits => do
    let bytes ← (Hex.decodeSpaced (String.ofList digits)).toOption
    return .text (← textOfBytes? bytes)
  | _ => none

def read? (written : String) : Option Datum :=
  match written.toList with
  | ['l'] => some (.list [])
  | 'l' :: cells => ((Text.parts ',' (String.ofList cells)).mapM readCell?).map .list
  | _ => readCell? written

end Datum

namespace StoredCommitment

def write (record : StoredCommitment) : String :=
  String.intercalate " " [
    (Datum.int record.id).write,
    record.name.write,
    record.threshold.write,
    record.participants.write,
    record.budget.write,
    record.dropped.write,
    record.merkleRoot.write,
    record.internalKey.write,
    record.outputKey.write,
    record.leafHashes.write]

def read? (line : String) : Option StoredCommitment := do
  match ← (Text.parts ' ' line).mapM Datum.read? with
  | [.int id, name, threshold, participants, budget, dropped, merkleRoot, internalKey, outputKey,
      leafHashes] =>
    return ⟨id, name, threshold, participants, budget, dropped, merkleRoot, internalKey, outputKey,
      leafHashes⟩
  | _ => none

end StoredCommitment

namespace Store

def write (store : Store) : String :=
  String.join (store.records.map fun record => record.write ++ "\n")

/-- The store of lines; a line that is no row makes the whole unreadable. -/
def read? (content : String) : Option Store :=
  (((Text.parts '\n' content).filter (!·.isEmpty)).mapM StoredCommitment.read?).map Store.mk

end Store

end QuorumTree
