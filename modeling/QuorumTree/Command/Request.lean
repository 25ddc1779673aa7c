import QuorumTree.Command.Arguments

/-!
The commands and their arguments.
-/

namespace QuorumTree

inductive Request
  | commit (name pubkeys : String) (threshold : Int) (budget : Option Int)
      (internalKey : Option String) (maxCombinations : Int)
  | minThreshold (participants maxLeaves : Int)
  | prove (name signers : String)
  | inspect (name : String) (withLeaves : Bool)
  | verify (root aggregatedKey proof : String) (leafCount : Option Int)
  deriving DecidableEq

inductive Invocation
  | help
  | refused
  | run (url : String) (request : Request)
  deriving DecidableEq

/-- The database where neither an option nor a variable names one. -/
def defaultUrl : String := "sqlite:///bitmast.db"

/-- What commands take from the environment where an option is not given. -/
structure Defaults where
  url : String
  budget : Option Int
  maxCombinations : Int
  deriving DecidableEq

/-- Reads the defaults. They are read for every command, also for those that do not use them. -/
def Defaults.ofEnvironment (env : Environment) : Except Fault Defaults := do
  let budget ← env.integer? "MAST_PRUNE_BUDGET"
  let maxCombinations ← env.integerOr "MAST_MAX_COMBINATIONS" 1000000
  return ⟨(env.get? "MAST_DB_URL").getD defaultUrl, budget, maxCombinations⟩

namespace Request

open Arguments

def helpOption : OptionSpec := { names := ["--help", "-h"], takes := .help }

def nameOption : OptionSpec := { names := ["--name"], takes := .text, isRequired := true }

def leadingOptions : List OptionSpec :=
  [helpOption, { names := ["--db"], takes := .text }]

def options? : String → Option (List OptionSpec)
  | "commit" => some [helpOption, nameOption,
      { names := ["--pubkeys"], takes := .text, isRequired := true },
      { names := ["--threshold", "-m"], takes := .integer, isRequired := true },
      { names := ["--prune-budget"], takes := .integer },
      { names := ["--internal-key"], takes := .text },
      { names := ["--max-combinations"], takes := .integer }]
  | "min_threshold" => some [helpOption,
      { names := ["--participants", "-n"], takes := .integer, isRequired := true },
      { names := ["--max-leaves"], takes := .integer, isRequired := true }]
  | "prove" => some [helpOption, nameOption,
      { names := ["--signers"], takes := .text, isRequired := true }]
  | "show" => some [helpOption, nameOption, { names := ["--leaves"], takes := .nothing }]
  | "verify" => some [helpOption,
      { names := ["--root"], takes := .text, isRequired := true },
      { names := ["--aggregated-key"], takes := .text, isRequired := true },
      { names := ["--proof"], takes := .text, isRequired := true },
      { names := ["--leaf-count"], takes := .integer }]
  | _ => none

def ofValues? (defaults : Defaults) (command : String) (values : List (String × Value)) :
    Option Request :=
  match command with
  | "commit" => do
    return .commit (← text? values "--name") (← text? values "--pubkeys")
      (← integer? values "--threshold")
      ((integer? values "--prune-budget").or defaults.budget)
      ((text? values "--internal-key").filter (!·.isEmpty))
      ((integer? values "--max-combinations").getD defaults.maxCombinations)
  | "min_threshold" => do
    return .minThreshold (← integer? values "--participants") (← integer? values "--max-leaves")
  | "prove" => do return .prove (← text? values "--name") (← text? values "--signers")
  | "show" => do
    return .inspect (← text? values "--name") (last? values "--leaves" == some .present)
  | "verify" => do
    return .verify (← text? values "--root") (← text? values "--aggregated-key")
      (← text? values "--proof") (integer? values "--leaf-count")
  | _ => none

def invocationOf (defaults : Defaults) (leading : Progress) (command : String)
    (arguments : List String) : Invocation :=
  match options? command with
  | none => .refused
  | some specs =>
    match parse specs arguments with
    | none => .refused
    | some .help => .help
    | some (.options values hasExtras) =>
      if leading.hasExtras || hasExtras then .refused
      else match ofValues? defaults command values with
        | some request => .run ((text? leading.values "--db").getD defaults.url) request
        | none => .refused

end Request

def Invocation.ofArguments (defaults : Defaults) (arguments : List String) : Invocation :=
  match Arguments.parseLeading Request.leadingOptions arguments with
  | none => .refused
  | some .help => .help
  | some (.finished _) => .refused
  | some (.stopped leading command rest) => Request.invocationOf defaults leading command rest

def usageLines : List String :=
  ["usage: quorumtree [-h] [--db DB] COMMAND ...",
   "  commit --name NAME --pubkeys KEYS --threshold M [--prune-budget N] [--internal-key KEY]",
   "         [--max-combinations N]",
   "  min_threshold --participants N --max-leaves N",
   "  prove --name NAME --signers SIGNERS",
   "  show --name NAME [--leaves]",
   "  verify --root ROOT --aggregated-key KEY --proof PROOF [--leaf-count N]"]

end QuorumTree
