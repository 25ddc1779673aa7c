import QuorumTree.Fault
import QuorumTree.Text.Integer

/-!
Environment variables, and the numbers that they and command-line arguments spell.
-/

namespace QuorumTree

abbrev Environment := List (String × String)

def readInteger (text : String) : Except Fault Int :=
  match Text.IntegerReading.of text with
  | .number n => .ok n
  | .tooLong digits => .error (.tooManyDigits digits)
  | .malformed => .error (.notInteger text)

namespace Environment

def get? (env : Environment) (name : String) : Option String :=
  env.lookup name

/-- The environment with one more variable. No name holds an equals sign, and neither a name nor a
value the null character. -/
def assign (env : Environment) (name value : String) : Except Fault Environment :=
  if name.contains '\x00' || value.contains '\x00' then .error .embeddedNul
  else if name.contains '=' then .error .variableName
  else .ok (env ++ [(name, value)])

def ofVariables (given : List (String × String)) : Except Fault Environment :=
  given.foldlM (fun env (name, value) => Environment.assign env name value) []

def integerOr (env : Environment) (name : String) (fallback : Int) : Except Fault Int :=
  match env.get? name with
  | none => .ok fallback
  | some text => readInteger text

/-- The number of a variable, or none when the variable is not set or empty. -/
def integer? (env : Environment) (name : String) : Except Fault (Option Int) :=
  match env.get? name with
  | none => .ok none
  | some text => if text.isEmpty then .ok none else (readInteger text).map some

end Environment

end QuorumTree
