import QuorumTree.Environment

/-!
Reading command-line arguments. Options may be given in any order, long ones by any beginning that
fits only one of them; a value follows its option, or is joined to it by an equals sign, or directly
to an option of one letter. Negative numbers and texts with a space are values, not options.
-/

namespace QuorumTree.Arguments

inductive Takes
  | text
  | integer
  | nothing
  | help
  deriving DecidableEq, Repr

structure OptionSpec where
  names : List String
  takes : Takes
  isRequired : Bool := false
  deriving DecidableEq

inductive Value
  | text (value : String)
  | integer (value : Int)
  | present
  deriving DecidableEq

/-- What was given: a call for help, or the values of options and whether anything was left over. -/
inductive Parsed
  | help
  | options (values : List (String × Value)) (hasExtras : Bool)
  deriving DecidableEq

/-- What is joined to an option in one argument: nothing, a text after an equals sign, or the
characters after a name of one letter. -/
inductive Joined
  | nothing
  | equals (text : String)
  | letters (text : String)
  deriving DecidableEq

inductive Token
  | argument (text : String)
  | endMark
  | option (spec : OptionSpec) (joined : Joined)
  | unknownOption
  deriving DecidableEq

def Joined.text? : Joined → Option String
  | nothing => none
  | equals text | letters text => some text

namespace OptionSpec

def key (spec : OptionSpec) : String :=
  spec.names.headD ""

end OptionSpec

def allNames (specs : List OptionSpec) : List (String × OptionSpec) :=
  specs.flatMap fun spec => spec.names.map (·, spec)

def named? (specs : List OptionSpec) (name : String) : Option OptionSpec :=
  (allNames specs).lookup name

/-- A text before its first equals sign, and what that sign joins to it. -/
def splitEquals (text : String) : String × Joined :=
  let cs := text.toList
  match cs.dropWhile (· ≠ '=') with
  | _ :: after => (String.ofList (cs.takeWhile (· ≠ '=')), .equals (String.ofList after))
  | [] => (text, .nothing)

/-- The options that an argument could mean without being an exact name, with the values joined to
them. -/
def candidates (specs : List OptionSpec) (text : String) : List (OptionSpec × Joined) :=
  match text.toList with
  | '-' :: '-' :: _ =>
    let (opening, joined) := splitEquals text
    (allNames specs).filterMap fun (name, spec) =>
      if opening.isPrefixOf name then some (spec, joined) else none
  | '-' :: letter :: rest =>
    (allNames specs).filterMap fun (name, spec) =>
      if name = String.ofList ['-', letter] then some (spec, .letters (String.ofList rest))
      else if text.isPrefixOf name then some (spec, .nothing)
      else none
  | _ => []

def isDecimal (c : Char) : Bool :=
  (Text.decimalValue? c).isSome

def dropNewline (cs : List Char) : List Char :=
  if cs.getLast? = some '\n' then cs.dropLast else cs

/-- Whether a text is a minus sign before digits, or before a point with digits after it. A newline
may follow. -/
def isNegativeNumber (text : String) : Bool :=
  match dropNewline text.toList with
  | '-' :: rest =>
    match rest.dropWhile isDecimal with
    | [] => !rest.isEmpty
    | '.' :: fraction => !fraction.isEmpty && fraction.all isDecimal
    | _ => false
  | _ => false

/-- What an equals sign joins to an option. After a name of one letter it joins characters as if
they followed the name directly. -/
def joinedTo (name : String) : Joined → Joined
  | .equals text =>
    if name.startsWith "--" || text.isEmpty then .equals text else .letters text
  | joined => joined

/-- The token of one argument; an argument that could mean several options has none. -/
def token? (specs : List OptionSpec) (text : String) : Option Token :=
  if !text.startsWith "-" ∨ text.length = 1 then some (.argument text)
  else match named? specs text with
    | some spec => some (.option spec .nothing)
    | none =>
      let (name, joined) := splitEquals text
      match named? specs name with
      | some spec => some (.option spec (joinedTo name joined))
      | none =>
        match candidates specs text with
        | [(spec, joined)] => some (.option spec joined)
        | _ :: _ :: _ => none
        | [] =>
          some (if isNegativeNumber text ∨ text.contains ' ' then .argument text
            else .unknownOption)

/-- The tokens of all arguments. After two bare dashes, nothing is an option. -/
def tokens? (specs : List OptionSpec) : List String → Option (List Token)
  | [] => some []
  | text :: rest =>
    if text = "--" then some (.endMark :: rest.map .argument)
    else do return (← token? specs text) :: (← tokens? specs rest)

def value? (spec : OptionSpec) (text : String) : Option Value :=
  match spec.takes with
  | .integer => (readInteger text).toOption.map .integer
  | _ => some (.text text)

def startsWithArgument : List Token → Bool
  | .argument _ :: _ => true
  | _ => false

/-- Whether letters after the letter for help are acceptable: each has to be an option of one
letter, the last of which may find its value after it. -/
def helpRunIsValid (specs : List OptionSpec) (valueFollows : Bool) : List Char → Bool
  | [] => true
  | letter :: rest =>
    match named? specs (String.ofList ['-', letter]) with
    | none => false
    | some spec =>
      match spec.takes with
      | .help | .nothing => helpRunIsValid specs valueFollows rest
      | .text | .integer => !rest.isEmpty || valueFollows

def helpIsValid (specs : List OptionSpec) (rest : List Token) : Joined → Bool
  | .nothing => true
  | .equals _ => false
  | .letters text => helpRunIsValid specs (startsWithArgument rest) text.toList

/-- What was read so far: the values in the order given, and whether something was left over. -/
structure Progress where
  values : List (String × Value)
  hasExtras : Bool

def Progress.give (progress : Progress) (spec : OptionSpec) (value : Value) : Progress :=
  { progress with values := progress.values ++ [(spec.key, value)] }

def Progress.leave (progress : Progress) : Progress :=
  { progress with hasExtras := true }

/-- How reading options ended: with a call for help, at a bare argument, or at the end. -/
inductive Reading
  | help
  | stopped (progress : Progress) (argument : String) (rest : List String)
  | finished (progress : Progress)

/-- Reads the options of tokens, each with the argument it was made from. Bare arguments end the
reading or are left over, as asked for. -/
def readOptions (specs : List OptionSpec) (stopAtArgument : Bool) :
    Progress → List (Token × String) → Option Reading
  | progress, [] => some (.finished progress)
  | progress, (.argument text, _) :: rest =>
    if stopAtArgument then some (.stopped progress text (rest.map Prod.snd))
    else readOptions specs stopAtArgument progress.leave rest
  | progress, (.endMark, _) :: rest =>
    if stopAtArgument then none else readOptions specs stopAtArgument progress.leave rest
  | progress, (.unknownOption, _) :: rest =>
    readOptions specs stopAtArgument progress.leave rest
  | progress, (.option spec joined, _) :: rest =>
    match spec.takes, joined.text? with
    | .help, _ => if helpIsValid specs (rest.map Prod.fst) joined then some .help else none
    | .nothing, none => readOptions specs stopAtArgument (progress.give spec .present) rest
    | .nothing, some _ => none
    | _, some text =>
      (value? spec text).bind fun value =>
        readOptions specs stopAtArgument (progress.give spec value) rest
    | _, none =>
      match rest with
      | (.argument text, _) :: rest =>
        (value? spec text).bind fun value =>
          readOptions specs stopAtArgument (progress.give spec value) rest
      | _ => none

def hasRequired (specs : List OptionSpec) (values : List (String × Value)) : Bool :=
  specs.all fun spec => !spec.isRequired || (values.lookup spec.key).isSome

def parse (specs : List OptionSpec) (arguments : List String) : Option Parsed := do
  let tokens ← tokens? specs arguments
  match ← readOptions specs false ⟨[], false⟩ (tokens.zip arguments) with
  | .help => return .help
  | .stopped _ _ _ => none
  | .finished progress =>
    if hasRequired specs progress.values then return .options progress.values progress.hasExtras
    else none

def parseLeading (specs : List OptionSpec) (arguments : List String) : Option Reading := do
  let tokens ← tokens? specs arguments
  readOptions specs true ⟨[], false⟩ (tokens.zip arguments)

def last? (values : List (String × Value)) (key : String) : Option Value :=
  values.reverse.lookup key

def text? (values : List (String × Value)) (key : String) : Option String :=
  match last? values key with
  | some (.text value) => some value
  | _ => none

def integer? (values : List (String × Value)) (key : String) : Option Int :=
  match last? values key with
  | some (.integer value) => some value
  | _ => none

end QuorumTree.Arguments
