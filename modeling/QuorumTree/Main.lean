import QuorumTree.Command.Run
import QuorumTree.StoreFile

/-!
The command line. Variables come from the process and from a `.env` file in the working directory,
and commitments are kept in one file.
-/

namespace QuorumTree

def commandVariables : List String :=
  ["MAST_DB_URL", "MAST_PRUNE_BUDGET", "MAST_MAX_COMBINATIONS", "MAST_WORKERS", "MAST_CACHE_SIZE",
    EnvironmentFile.disablingVariable]

def readIfPresent (path : String) : IO (Option String) := do
  try
    return some (← IO.FS.readFile path)
  catch _ =>
    return none

def readVariables (names : List String) : IO Environment :=
  names.filterMapM fun name => do return (← IO.getEnv name).map (name, ·)

def finish (outcome : Outcome) : IO UInt32 := do
  for notice in outcome.notices do
    IO.eprintln notice.message
  for line in outcome.lines do
    IO.println line
  match outcome.ending with
  | .done => return 0
  | .usage =>
    for line in usageLines do
      IO.eprintln line
    return 2
  | .stopped message =>
    IO.eprintln message
    return 1
  | .failed fault =>
    IO.eprintln (fault.message?.getD "The command failed")
    return 1

def runOnFile (settings : Settings) (request : Request) (path : String) (access : Access) :
    IO UInt32 := do
  let content ← readIfPresent path
  if access ≠ .create && content.isNone then
    return ← finish ⟨.failed .notOpened, [], [], Store.empty⟩
  match Store.read? (content.getD "") with
  | none =>
    IO.eprintln s!"{path} does not hold commitments"
    return 1
  | some store =>
    let outcome := request.outcome settings defaultColumns (access ≠ .read) store
    if outcome.store.records.length ≠ store.records.length then
      IO.FS.writeFile path outcome.store.write
    finish outcome

/-- Runs a request on the store of the database that a url names. -/
def runRequest (settings : Settings) (url : String) (request : Request) : IO UInt32 := do
  match Database.ofUrl url with
  | .error fault => finish ⟨.failed fault, [], [], Store.empty⟩
  | .ok .memory => finish (request.outcome settings defaultColumns true Store.empty)
  | .ok (.file path access) => runOnFile settings request path access

def runProgram (arguments : List String) : IO UInt32 := do
  let file ← readIfPresent ".env"
  let mentioned := (file.map EnvironmentFile.mentioned).getD []
  let env ← readVariables (commandVariables ++ mentioned).eraseDups
  match Settings.ofEnvironment env none with
  | .error fault => finish ⟨.failed fault, [], [], Store.empty⟩
  | .ok settings =>
    match withFile file env with
    | .error fault => finish ⟨.failed fault, [], [], Store.empty⟩
    | .ok env =>
      match Invocation.of env arguments with
      | .error fault => finish ⟨.failed fault, [], [], Store.empty⟩
      | .ok .help =>
        for line in usageLines do
          IO.println line
        return 0
      | .ok .refused => finish ⟨.usage, [], [], Store.empty⟩
      | .ok (.run url request) => runRequest settings url request

end QuorumTree

def main (arguments : List String) : IO UInt32 :=
  QuorumTree.runProgram arguments
