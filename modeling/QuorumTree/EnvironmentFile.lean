import QuorumTree.Environment

/-!
Files of environment variables. A statement is a name, and usually an equals sign and a value, on a
line of its own; `export ` before it is ignored. Quoted values may run over several lines and hold
escapes, other values end at a comment. A line that is no statement is passed over. A value may
refer to variables, and those of the surrounding environment win over those of the file.
-/

namespace QuorumTree.EnvironmentFile

inductive Statement
  | assign (name : String) (value : Option String)
  | nothing
  | unreadable
  deriving DecidableEq

/-- Ends every line with a single newline. -/
def normalizeNewlines : List Char → List Char
  | '\r' :: '\n' :: rest => '\n' :: normalizeNewlines rest
  | '\r' :: rest => '\n' :: normalizeNewlines rest
  | c :: rest => c :: normalizeNewlines rest
  | [] => []

def isLineBlank (c : Char) : Bool :=
  Text.isBlank c && c != '\n'

def dropExport (cs : List Char) : List Char :=
  if cs.take 6 = "export".toList ∧ ((cs.drop 6).head?.any isLineBlank) then
    (cs.drop 6).dropWhile isLineBlank
  else cs

/-- What stands before a closing quote, and what stands after it. A backslash takes the character
after it along, so a quote there does not close. -/
def closeQuote (quote : Char) : List Char → Option (List Char × List Char)
  | [] => none
  | '\\' :: c :: rest =>
    (closeQuote quote rest).map fun (inner, after) => ('\\' :: c :: inner, after)
  | c :: rest =>
    if c = quote then some ([], rest)
    else (closeQuote quote rest).map fun (inner, after) => (c :: inner, after)

def escaped? : Char → Option Char
  | '\\' => some '\\'
  | '\'' => some '\''
  | '"' => some '"'
  | 'a' => some '\x07'
  | 'b' => some '\x08'
  | 'f' => some '\x0c'
  | 'n' => some '\n'
  | 'r' => some '\r'
  | 't' => some '\t'
  | 'v' => some '\x0b'
  | _ => none

def escapedIn? (quote c : Char) : Option Char :=
  if quote = '"' then escaped? c else if c = '\\' ∨ c = '\'' then some c else none

def unescape (quote : Char) : List Char → List Char
  | '\\' :: c :: rest =>
    match escapedIn? quote c with
    | some e => e :: unescape quote rest
    | none => '\\' :: unescape quote (c :: rest)
  | c :: rest => c :: unescape quote rest
  | [] => []

/-- The characters before the first blank that a comment follows. -/
def cutComment : List Char → List Char
  | [] => []
  | c :: rest =>
    if Text.isBlank c && (rest.dropWhile Text.isBlank).head? == some '#' then []
    else c :: cutComment rest

def dropTrailingBlanks (cs : List Char) : List Char :=
  (cs.reverse.dropWhile Text.isBlank).reverse

/-- The name that a statement opens with and the text after it; a comment has no name. -/
def readName (cs : List Char) : Option (Option String × List Char) :=
  match cs with
  | '#' :: _ => some (none, cs)
  | '\'' :: rest =>
    let name := rest.takeWhile (· ≠ '\'')
    match rest.dropWhile (· ≠ '\'') with
    | _ :: after => if name.isEmpty then none else some (some (String.ofList name), after)
    | [] => none
  | _ =>
    let isName := fun c => !(c == '=' || c == '#' || Text.isBlank c)
    let name := cs.takeWhile isName
    if name.isEmpty then none else some (some (String.ofList name), cs.dropWhile isName)

/-- The value after an equals sign and the text after it. A value without quotes ends at a comment,
which a blank comes before. -/
def readValue (cs : List Char) : Option (String × List Char) :=
  let line := cs.takeWhile (· ≠ '\n')
  let bare := String.ofList ((dropTrailingBlanks (cutComment line)).dropWhile isLineBlank)
  match cs.dropWhile isLineBlank with
  | '\'' :: rest =>
    (closeQuote '\'' rest).map fun (inner, after) => (String.ofList (unescape '\'' inner), after)
  | '"' :: rest =>
    (closeQuote '"' rest).map fun (inner, after) => (String.ofList (unescape '"' inner), after)
  | _ => some (bare, cs.dropWhile (· ≠ '\n'))

def readAssigned (cs : List Char) : Option (Option String × List Char) :=
  match cs with
  | '=' :: rest => (readValue rest).map fun (v, after) => (some v, after)
  | _ => some (none, cs)

def endLine (cs : List Char) : Option (List Char) :=
  let bare := cs.dropWhile isLineBlank
  let bare := if bare.head? = some '#' then bare.dropWhile (· ≠ '\n') else bare
  match bare with
  | [] => some []
  | '\n' :: rest => some rest
  | _ => none

def dropLine (cs : List Char) : List Char :=
  (cs.dropWhile (· ≠ '\n')).drop 1

def readStatement (cs : List Char) : Statement × List Char :=
  let start := cs.dropWhile Text.isBlank
  if start.isEmpty then (.nothing, [])
  else
    let named := dropExport start
    match readName named with
    | none => (.unreadable, dropLine named)
    | some (name, afterName) =>
      let afterName := afterName.dropWhile isLineBlank
      match readAssigned afterName with
      | none => (.unreadable, dropLine (afterName.drop 1 |>.dropWhile isLineBlank))
      | some (value, afterValue) =>
        match endLine afterValue with
        | none => (.unreadable, dropLine afterValue)
        | some rest =>
          (match name with
            | some name => .assign name value
            | none => .nothing, rest)

/-- Reads statements to the end; the first argument bounds their number. -/
def readStatements : Nat → List Char → List Statement
  | 0, _ => []
  | bound + 1, cs =>
    if cs.isEmpty then []
    else
      let (statement, rest) := readStatement cs
      statement :: readStatements bound rest

/-- A text without the mark that may stand before it. -/
def dropMark : List Char → List Char
  | '\uFEFF' :: rest => rest
  | cs => cs

def statements (content : String) : List Statement :=
  let cs := normalizeNewlines (dropMark content.toList)
  readStatements cs.length cs

def assignments (statements : List Statement) : List (String × Option String) :=
  statements.filterMap fun
    | .assign name value => some (name, value)
    | _ => none

/-- A reference to a variable: its name, the text to put when it is not set, and what follows. -/
def readReference (cs : List Char) : Option (String × String × List Char) :=
  match cs with
  | '$' :: '\x7b' :: rest =>
    let isName := fun c => c ≠ '\x7d' ∧ c ≠ ':'
    let name := String.ofList (rest.takeWhile isName)
    match rest.dropWhile isName with
    | '\x7d' :: after => some (name, "", after)
    | ':' :: '-' :: after =>
      match after.dropWhile (· ≠ '\x7d') with
      | _ :: rest => some (name, String.ofList (after.takeWhile (· ≠ '\x7d')), rest)
      | [] => none
    | _ => none
  | _ => none

/-- Puts the texts of variables for the references to them; the first argument bounds the number
of characters. A variable that is there without a value stands for nothing. -/
def expandChars (lookup : String → Option (Option String)) : Nat → List Char → List Char
  | 0, _ => []
  | _, [] => []
  | bound + 1, c :: rest =>
    match readReference (c :: rest) with
    | some (name, fallback, after) =>
      ((lookup name).getD (some fallback)).getD "" |>.toList |>
        (· ++ expandChars lookup bound after)
    | none => c :: expandChars lookup bound rest

def expand (lookup : String → Option (Option String)) (value : String) : String :=
  String.ofList (expandChars lookup value.toList.length value.toList)

/-- Assignments with their references resolved: by the environment, or else by what was assigned
before. The latest comes first. -/
def resolve (env : Environment) (assigned : List (String × Option String)) :
    List (String × Option String) :=
  assigned.foldl (fun resolved (name, value) =>
    let lookup := fun other =>
      match env.get? other with
      | some text => some (some text)
      | none => resolved.lookup other
    (name, value.map (expand lookup)) :: resolved) []

def disablingVariable : String := "PYTHON_DOTENV_DISABLED"

/-- A letter without its case. The long s is a form of the small one. -/
def foldCase (c : Char) : Char :=
  if c = '\u017F' then 's' else c.toLower

def isDisabled (env : Environment) : Bool :=
  (env.get? disablingVariable).any fun value =>
    ["1", "true", "t", "yes", "y"].contains (String.ofList (value.toList.map foldCase))

/-- Whether a file that is there assigns anything and is not turned off. -/
def isLoaded (content : String) (env : Environment) : Bool :=
  !isDisabled env && !(assignments (statements content)).isEmpty

/-- Adds variables in order. Those that were set before stay as they were. -/
def addAll (env : Environment) (assigned : List (String × Option String)) :
    Except Fault Environment :=
  assigned.foldlM (fun env (name, value) =>
    match value with
    | some value => if (env.get? name).isSome then .ok env else env.assign name value
    | none => .ok env) env

/-- The environment with the variables of a file added, each with the last value that it assigns. -/
def load (content : String) (env : Environment) : Except Fault Environment :=
  if isDisabled env then .ok env
  else
    let resolved := resolve env (assignments (statements content))
    let names := (resolved.reverse.map Prod.fst).eraseDups
    addAll env (names.map fun name => (name, (resolved.lookup name).getD none))

/-- The names that a text refers to; the first argument bounds the number of characters. -/
def referredNames : Nat → List Char → List String
  | 0, _ => []
  | _, [] => []
  | bound + 1, c :: rest =>
    match readReference (c :: rest) with
    | some (name, _, after) => name :: referredNames bound after
    | none => referredNames bound rest

def mentioned (content : String) : List String :=
  (assignments (statements content)).flatMap fun (name, value) =>
    let cs := (value.getD "").toList
    name :: referredNames cs.length cs

end QuorumTree.EnvironmentFile
