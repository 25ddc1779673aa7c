import QuorumTree.Command.Database
import QuorumTree.Command.Request
import QuorumTree.EnvironmentFile
import QuorumTree.Settings

/-!
Running commands over a store. A run prints lines, gives notices and ends in one of four ways; the
store changes only when it ends well.
-/

namespace QuorumTree

inductive Stop
  | exit (message : String)
  | fault (fault : Fault)

inductive Ending
  | done
  | usage
  | stopped (message : String)
  | failed (fault : Fault)
  deriving DecidableEq

structure Outcome where
  ending : Ending
  lines : List String
  notices : List Notice
  store : Store

/-- What a running command has: its settings, the store and whether it may be written to, the lines
printed so far, and the notices given. -/
structure Desk where
  settings : Settings
  store : Store
  isWritable : Bool
  lines : List String
  notices : List Notice

abbrev Command := ExceptT Stop (StateM Desk)

variable [Machine]

namespace Command

/-- The lines of texts; a text with line breaks makes several. -/
def printed (texts : List String) : List String :=
  texts.flatMap (Text.parts '\n')

def print (texts : List String) : Command Unit :=
  modify fun desk => { desk with lines := desk.lines ++ printed texts }

/-- A value after its label, with the values of a command in one column. -/
def labelled (label value : String) : String :=
  label ++ String.ofList (List.replicate (19 - label.length) ' ') ++ " " ++ value

def exit {α : Type} (message : String) : Command α :=
  throw (.exit message)

def stopIf (condition : Bool) (stop : Stop) : Command Unit :=
  if condition then throw stop else return ()

/-- Goes on with an answer, or ends the run: expected refusals with a message, others as they
are. -/
def orExit {α : Type} (opening : String) : Except Fault α → Command α
  | .ok answer => return answer
  | .error fault =>
    if fault.kind.isExpected then exit (opening ++ fault.message) else throw (.fault fault)

def orFail {α : Type} : Except Fault α → Command α
  | .ok answer => return answer
  | .error fault => throw (.fault fault)

def newCache : Command (Except Fault Cache) := do
  return (← get).settings.newCache

/-- Runs an action with a cache, and keeps its notices. -/
def perform {α : Type} (cache : Cache) (action : Action α) : Command (Except Fault α) := do
  let (answer, ledger) := action.run (Ledger.withCache (some cache))
  modify fun desk => { desk with notices := desk.notices ++ ledger.notices }
  return answer

def controller (ceiling : Int) : Controller :=
  { primitive := musig, ceiling := .int ceiling }

def findRecord (name : String) : Command StoredCommitment := do
  match (← get).store.find? (.text name) with
  | some record => return record
  | none => exit s!"MAST with name {name} not found"

def rebuild (cache : Cache) (name : String) : Command (Except Fault Commitment) := do
  let desk ← get
  perform cache (desk.store.load (controller desk.settings.maxCombinations) name)

/-- What a commit prints. -/
def commitReport (name : String) (commitment : Commitment) (output : OutputCommitment) :
    List String := [
  labelled "Name:" name,
  labelled "Policy:" (toString commitment.stated),
  labelled "Leaves:" (toString commitment.tree.leafCount),
  labelled "Dropped:" (toString commitment.dropped),
  labelled "Depth:" (toString commitment.tree.depth),
  labelled "Merkle root:" (Hex.encode commitment.root.bytes),
  labelled "Internal key:" output.internalKey.hex,
  labelled "Output key:" (Hex.encode output.outputKey.xOnly.bytes),
  labelled "Parity:" (toString output.parity),
  labelled "scriptPubKey:" (Hex.encode output.script)]

/-- The policy that the options of a commit ask for. -/
def policyRequest (keys : List PublicKey) (threshold : Int) (budget : Option Int)
    (internalKey : Option PublicKey) : PolicyRequest where
  pubkeys := .list (keys.map .key)
  threshold := .int threshold
  budget := (budget.map Datum.int).getD .null
  internalKey := (internalKey.map Datum.key).getD .null

/-- Commits to the policy that options spell. -/
def commitTo (pubkeys : String) (threshold : Int) (budget : Option Int)
    (internalKey : Option String) (maxCombinations : Int) : Command Commitment := do
  let refusal := "Cannot commit to the policy: "
  let keys ← orExit refusal (Datum.readKeys (.text pubkeys))
  let internalKey ← orExit refusal (internalKey.mapM PublicKey.ofHex)
  let cache ← orExit refusal (← newCache)
  let request := policyRequest keys threshold budget internalKey
  orExit refusal (← perform cache ((controller maxCombinations).commit request))

def saveAs (name : String) (commitment : Commitment) : Command Unit := do
  let desk ← get
  let (record, store) ← orFail (desk.store.save commitment name)
  stopIf (maxRowBytes < record.textBytes) (.fault .columnTooWide)
  stopIf (!desk.isWritable) (.fault .readOnly)
  modify fun desk =>
    { desk with store := store, notices := desk.notices ++ [.saved name record.id] }

def runCommit (name pubkeys : String) (threshold : Int) (budget : Option Int)
    (internalKey : Option String) (maxCombinations : Int) : Command Unit := do
  let desk ← get
  stopIf (desk.store.find? (.text name)).isSome (.exit s!"MAST with name {name} already exists")
  let commitment ← commitTo pubkeys threshold budget internalKey maxCombinations
  saveAs name commitment
  let output ← orFail commitment.output
  print (commitReport name commitment output)

def countQuorums (m n : Int) : Except Fault Nat :=
  StatedThreshold.of (.whole m) (.whole n) >>= Combination.countOf

def runMinThreshold (participants maxLeaves : Int) : Command Unit := do
  stopIf (participants < 1 ∨ maxLeaves < 1)
    (.exit "--participants and --max-leaves must be positive")
  let m ← orFail (Combination.minThreshold participants (.whole maxLeaves))
  print [labelled "Minimum threshold:" (toString m)]
  print [labelled "Leaves:" (toString (← orFail (countQuorums m participants)))]

/-- The signers that a text names: indices when every part is made of digits, and keys otherwise. -/
def readSigners (text : String) : Except Fault (List Datum) :=
  let parts := ((Text.parts ',' text).map Text.strip).filter (!·.isEmpty)
  if !parts.isEmpty && parts.all fun part => part.toList.all Text.isDigit then
    parts.mapM fun part => (readInteger part).map .int
  else .ok (parts.map .text)

/-- What a proof is printed as, for a quorum at an index of the leaves under a root. -/
def proofReport (quorum : AggregatedKey Nat) (index : Nat) (root : Bytes32)
    (proof : InclusionProof) : List String := [
  labelled "Combination:" (String.intercalate "," (quorum.combination.map toString)),
  labelled "Leaf index:" (toString index),
  labelled "Aggregated key:" quorum.key.hex,
  labelled "Leaf hash:" (Hex.encode quorum.leafHash.bytes),
  labelled "Merkle root:" (Hex.encode root.bytes),
  labelled "Proof:" proof.hex]

/-- Prints the proof for the signers that a text names. -/
def printProof (commitment : Commitment) (signers : String) : Command Unit := do
  let refusal := "Cannot prove signer subset: "
  let members := Datum.list (← orExit refusal (readSigners signers))
  let quorum ← orExit refusal (commitment.quorumOf members)
  let proof ← orExit refusal (commitment.spendProof members)
  let index ← orFail (commitment.leafIndex members)
  print (proofReport quorum index commitment.root proof)

def runProve (name signers : String) : Command Unit := do
  let _ ← findRecord name
  let cache ← orFail (← newCache)
  let commitment ← orExit "Cannot prove signer subset: " (← rebuild cache name)
  printProof commitment signers

/-- A text cut to the width that is left for a value on a line of the given width. -/
def truncated (columns : Nat) (text : String) : String :=
  let width := max (columns - 35) 30
  if width < text.length then Text.cut width text ++ "..." else text

def columnLine (columns : Nat) (name value : String) : String :=
  let label := name ++ ":"
  label ++ String.ofList (List.replicate (20 - label.length) ' ') ++ truncated columns value

def timeLabel : String := "created_at:"

/-- The lines of the columns of a row with one value each, in the order of their characters. A value
with line breaks makes several lines, which are put in order like the others. The time of a row is
not shown, nor is anything that could be taken for it. -/
def columnLines (columns : Nat) (record : StoredCommitment) : List String :=
  let lines := [
    columnLine columns "dropped_count" record.dropped.display,
    columnLine columns "id" (toString record.id),
    columnLine columns "internal_key" record.internalKey.display,
    columnLine columns "merkle_root" record.merkleRoot.display,
    columnLine columns "name" record.name.display,
    columnLine columns "output_key" record.outputKey.display,
    columnLine columns "prune_budget" record.budget.display,
    columnLine columns "threshold" record.threshold.display]
  let lines := (lines.flatMap (Text.parts '\n')).filter (!·.startsWith timeLabel)
  lines.mergeSort fun a b => !decide (b < a)

def numbered (lines : List String) : List String :=
  lines.mapIdx fun index line => s!"  {index}: " ++ line

def membershipLines (index : Nat) (entry : PublicKey × List PublicKey) : List String :=
  (s!"  {index}: " ++ entry.1.hex) :: entry.2.map fun member => "      " ++ member.hex

def printLeaves (name : String) : Command Unit := do
  let refusal := s!"Cannot rebuild MAST {name}: "
  let cache ← orExit refusal (← newCache)
  let commitment ← orExit refusal (← rebuild cache name)
  print ["Leaves:"]
  print (commitment.membership.mapIdx membershipLines).flatten

def runShow (name : String) (withLeaves : Bool) (columns : Nat) : Command Unit := do
  let record ← findRecord name
  print (columnLines columns record)
  print ["Participants:"]
  print (numbered ((← orFail record.participants.items).map Datum.display))
  if withLeaves then printLeaves name

def runVerify (root aggregatedKey proof : String) (leafCount : Option Int) : Command Unit := do
  let refusal := "Invalid input: "
  let root ← orExit refusal (Hex.readHash root)
  let key ← orExit refusal (PublicKey.ofHex aggregatedKey)
  let proof ← orExit refusal (Hex.read proof)
  let leafCount := (leafCount.map Datum.int).getD .null
  stopIf (!verifySpend (.bytes root.bytes) (.key key) (.bytes proof) leafCount)
    (.exit "Proof is INVALID")
  print ["Proof is valid"]

end Command

def Request.run (request : Request) (columns : Nat) : Command Unit :=
  match request with
  | .commit name pubkeys threshold budget internalKey maxCombinations =>
    Command.runCommit name pubkeys threshold budget internalKey maxCombinations
  | .minThreshold participants maxLeaves => Command.runMinThreshold participants maxLeaves
  | .prove name signers => Command.runProve name signers
  | .inspect name withLeaves => Command.runShow name withLeaves columns
  | .verify root aggregatedKey proof leafCount =>
    Command.runVerify root aggregatedKey proof leafCount

/-- The outcome of a request. A run that does not end well leaves the store as it was. -/
def Request.outcome (request : Request) (settings : Settings) (columns : Nat) (isWritable : Bool)
    (store : Store) : Outcome :=
  match (request.run columns).run ⟨settings, store, isWritable, [], []⟩ with
  | (.ok (), desk) => ⟨.done, desk.lines, desk.notices, desk.store⟩
  | (.error (.exit message), desk) => ⟨.stopped message, desk.lines, desk.notices, store⟩
  | (.error (.fault fault), desk) => ⟨.failed fault, desk.lines, desk.notices, store⟩

def defaultColumns : Nat := 80

def Invocation.of (env : Environment) (arguments : List String) : Except Fault Invocation :=
  (Defaults.ofEnvironment env).map (Invocation.ofArguments · arguments)

/-- Runs a request on the store of its database, and puts that back. Other invocations open no
database. -/
def Invocation.outcomeOn (invocation : Invocation) (settings : Settings) (columns : Nat)
    (shelf : Shelf) : Outcome × Shelf :=
  match invocation with
  | .help => (⟨.done, [], [], shelf.usual⟩, shelf)
  | .refused => (⟨.usage, [], [], shelf.usual⟩, shelf)
  | .run url request =>
    match shelf.openUrl url with
    | .error fault => (⟨.failed fault, [], [], shelf.usual⟩, shelf)
    | .ok database =>
      let outcome := request.outcome settings columns database.isWritable (shelf.get database)
      (outcome, shelf.put database outcome.store)

def withFile (file : Option String) (env : Environment) : Except Fault Environment :=
  match file with
  | some content => EnvironmentFile.load content env
  | none => .ok env

/-- Runs the command that arguments ask for, in an environment and with a file of variables. -/
def runUnder (settings : Settings) (file : Option String) (env : Environment) (columns : Nat)
    (arguments : List String) (shelf : Shelf) : Outcome × Shelf :=
  match withFile file env >>= (Invocation.of · arguments) with
  | .error fault => (⟨.failed fault, [], [], shelf.usual⟩, shelf)
  | .ok invocation => invocation.outcomeOn settings columns shelf

/-- Runs a command in a process that has read its settings before, from an empty environment, and
that is told to use the usual database where the arguments name no other. -/
def runArguments (file : Option String) (env : Environment) (columns : Nat)
    (arguments : List String) (shelf : Shelf) : Outcome × Shelf :=
  runUnder Settings.default file env columns ("--db" :: defaultUrl :: arguments) shelf

/-- Runs a command in a process of its own, which reads its settings from its environment before the
file of variables. -/
def runProcess (processors : Option Number) (file : Option String) (env : Environment)
    (columns : Nat) (arguments : List String) (shelf : Shelf) : Outcome × Shelf :=
  match Settings.ofEnvironment env processors with
  | .error fault => (⟨.failed fault, [], [], shelf.usual⟩, shelf)
  | .ok settings => runUnder settings file env columns arguments shelf

end QuorumTree
