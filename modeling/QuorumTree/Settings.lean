import QuorumTree.Commitment
import QuorumTree.Environment

/-!
Settings that come from the environment.
-/

namespace QuorumTree

/-- The limits that apply where a caller sets none. -/
structure Settings where
  maxCombinations : Int
  workers : Number
  cacheSize : Int
  deriving DecidableEq

namespace Settings

/-- The settings of an empty environment on one processor. -/
def default : Settings := ⟨1000000, .whole 1, 100000⟩

/-- The number of workers: what is asked for, or else the number of processors, or else one; zero
asks for nothing. -/
def workerCount (asked processors : Option Number) : Number :=
  match asked.filter (!·.same (.whole 0)), processors.filter (!·.same (.whole 0)) with
  | some workers, _ => workers
  | none, some processors => processors
  | none, none => .whole 1

/-- Reads the settings, the ceiling first and the size of caches last. -/
def ofEnvironment (env : Environment) (processors : Option Number) : Except Fault Settings := do
  let maxCombinations ← env.integerOr "MAST_MAX_COMBINATIONS" default.maxCombinations
  let workers := workerCount ((← env.integer? "MAST_WORKERS").map .whole) processors
  let cacheSize ← env.integerOr "MAST_CACHE_SIZE" default.cacheSize
  return ⟨maxCombinations, workers, cacheSize⟩

def newCache (settings : Settings) : Except Fault Cache :=
  Cache.create (.whole settings.cacheSize)

/-- A controller that takes the ceiling from the settings where it is given none. -/
def controller (settings : Settings) (primitive : Primitive) (ceiling workers : Datum) :
    Controller :=
  ⟨primitive, ceiling.orElse (.int settings.maxCombinations), workers⟩

end Settings

end QuorumTree
