import QuorumTree.Command.DatabaseUrl

/-!
Names of database files. A name is a path, or an address that begins with `file:` and whose options
say how the file is to be used. Paths are looked at without following them: there are no
directories, so only a path of one component can be opened.
-/

namespace QuorumTree

/-- How a file is used: made where it is not there, written to, or only read. -/
inductive Access
  | create
  | update
  | read
  deriving DecidableEq, Repr

inductive Database
  | memory
  | file (name : String) (access : Access)
  deriving DecidableEq, Repr

namespace Database

def memoryName : String := ":memory:"

/-- The components of a path after those that lead back. Leading back further than the path reaches
stays as it is. -/
def components (path : String) : List String :=
  ((Text.parts '/' path).foldl (fun done part =>
    if part.isEmpty || part == "." then done
    else match part, done with
      | "..", last :: earlier => if last == ".." then part :: done else earlier
      | _, _ => part :: done) []).reverse

/-- The longest name of a file in bytes that leaves room for the name of its journal. -/
def maxNameLength : Nat := 247

def ofPath (path : String) (access : Access) : Except Fault Database :=
  if path.contains (Char.ofNat 0) then .error .embeddedNul
  else if path.startsWith "/" then .error .notOpened
  else match components path with
    | [name] =>
      if name == ".." || maxNameLength < (Bytes.ofText name).length then .error .notOpened
      else .ok (.file name access)
    | _ => .error .notOpened

/-- The database of a name that is no address: a path, or the name of one in memory. -/
def ofName (name : String) (access : Access) : Except Fault Database :=
  if name.isEmpty || name == memoryName then .ok .memory else ofPath name access

end Database

structure FileAddress where
  path : String
  options : List (String × String)

namespace FileAddress

/-- The text of a part, which ends before an encoded zero. -/
def partText (cs : List Char) : String :=
  let bytes := Text.percentBytes (cs.flatMap escapeWide)
  String.ofList (Text.decodeUtf8 (bytes.takeWhile (· ≠ 0)))
where
  escapeWide (c : Char) : List Char :=
    if Text.isAscii c then [c]
    else (Bytes.ofText (String.singleton c)).flatMap fun b => '%' :: Hex.encodeChars [b]

/-- What follows the two slashes and the host of an address; no host but the local one is known. -/
def dropHost : List Char → Except Fault (List Char)
  | '/' :: '/' :: rest =>
    let host := String.ofList (rest.takeWhile (· ≠ '/'))
    if host == "" || host == "localhost" then .ok (rest.dropWhile (· ≠ '/'))
    else .error .notOpened
  | cs => .ok cs

/-- The options between ampersands; one without a name is left out. -/
def readOptions (cs : List Char) : List (String × String) :=
  (Text.splitChars '&' cs).filterMap fun part =>
    let name := partText (part.takeWhile (· ≠ '='))
    if name.isEmpty then none else some (name, partText (part.dropWhile (· ≠ '=')).tail)

/-- Reads what follows `file:`. A number sign ends the address. -/
def parse (cs : List Char) : Except Fault FileAddress := do
  let address := (← dropHost cs).takeWhile (· ≠ '#')
  return ⟨partText (address.takeWhile (· ≠ '?')),
    readOptions (address.dropWhile (· ≠ '?')).tail⟩

def fileSystems : List String := ["unix", "unix-dotfile", "unix-excl", "unix-none"]

/-- Whether an option is unknown or has a value that is known for it. -/
def isKnown : String × String → Bool
  | ("vfs", value) => value == "memdb" || fileSystems.contains value
  | ("cache", value) => value == "shared" || value == "private"
  | ("mode", value) => ["ro", "rw", "rwc", "memory"].contains value
  | _ => true

def option? (address : FileAddress) (name : String) : Option String :=
  address.options.reverse.lookup name

def access (address : FileAddress) : Access :=
  match address.option? "mode" with
  | some "ro" => .read
  | some "rw" => .update
  | _ => .create

def toDatabase (address : FileAddress) : Except Fault Database :=
  if !address.options.all isKnown then .error .notOpened
  else if address.option? "mode" == some "memory" || address.option? "vfs" == some "memdb" then
    .ok .memory
  else Database.ofName address.path address.access

end FileAddress

def Database.ofAddress (name : String) : Except Fault Database :=
  if name.contains (Char.ofNat 0) then .error .embeddedNul
  else match name.toList with
    | 'f' :: 'i' :: 'l' :: 'e' :: ':' :: rest => do (← FileAddress.parse rest).toDatabase
    | _ => Database.ofName name .create

end QuorumTree
