import QuorumTree.Command.DatabaseFile
import QuorumTree.Store
import QuorumTree.Text.Lower
import QuorumTree.Text.Real

/-!
Databases as urls name them. A url has to name a kind that can be opened; its query may then hold
options, which are read in an order of their own before the database is looked for.
-/

namespace QuorumTree

namespace Database

def kinds : List String := ["sqlite", "sqlite+pysqlite", "sqlite+base"]

/-- The kinds of databases that are known, but of which no driver is at hand. -/
def driverlessKinds : List String := [
  "mysql", "mysql+base", "mysql+mysqldb", "mysql+pymysql", "mysql+mysqlconnector",
  "mysql+mariadbconnector", "mysql+cymysql", "mysql+pyodbc", "mysql+aiomysql", "mysql+asyncmy",
  "mariadb", "mariadb+base", "mariadb+mysqldb", "mariadb+pymysql", "mariadb+mysqlconnector",
  "mariadb+mariadbconnector", "mariadb+cymysql", "mariadb+pyodbc", "mariadb+aiomysql",
  "mariadb+asyncmy",
  "postgresql", "postgresql+base", "postgresql+psycopg2", "postgresql+psycopg",
  "postgresql+psycopg_async", "postgresql+psycopg2cffi", "postgresql+pg8000", "postgresql+asyncpg",
  "oracle", "oracle+base", "oracle+cx_oracle", "oracle+oracledb", "oracle+oracledb_async",
  "mssql", "mssql+base", "mssql+pyodbc", "mssql+pymssql", "mssql+aioodbc",
  "sqlite+aiosqlite", "sqlite+pysqlcipher"]

/-- Names in kinds that stand for something else than a driver. -/
def namesOfNoDriver : List String := [
  "sqlite+dialect", "sqlite+json", "sqlite+dml", "sqlite+insert", "sqlite+Insert", "sqlite+BLOB",
  "sqlite+BOOLEAN", "sqlite+CHAR", "sqlite+DATE", "sqlite+DATETIME", "sqlite+DECIMAL",
  "sqlite+FLOAT", "sqlite+INTEGER", "sqlite+JSON", "sqlite+NUMERIC", "sqlite+REAL",
  "sqlite+SMALLINT", "sqlite+TEXT", "sqlite+TIME", "sqlite+TIMESTAMP", "sqlite+VARCHAR",
  "mysql+dialect", "mysql+json", "mysql+dml", "postgresql+dialect", "postgresql+json",
  "postgresql+dml", "oracle+dialect", "mssql+dialect", "mssql+json"]

def checkKind (kind : String) : Except Fault Unit :=
  if 2 ≤ kind.toList.count '+' then .error .tooManyParts
  else if kinds.contains kind then .ok ()
  else if driverlessKinds.contains kind then .error .missingDriver
  else if namesOfNoDriver.contains kind then .error .noSuchField
  else .error .unknownDatabase

inductive OptionKind
  | truth
  | real
  | word
  | whole
  deriving DecidableEq

/-- The options of a query that are about the connection, in the order in which they are read. -/
def connectionOptions : List (String × OptionKind) := [
  ("uri", .truth), ("timeout", .real), ("isolation_level", .word), ("detect_types", .whole),
  ("check_same_thread", .truth), ("cached_statements", .whole)]

def affirmations : List String := ["true", "yes", "on", "y", "t", "1"]

def negations : List String := ["false", "no", "off", "n", "f", "0"]

def readTruth (text : String) : Except Fault Bool :=
  let word := Text.lower (Text.strip text)
  if affirmations.contains word then .ok true
  else if negations.contains word then .ok false
  else .error (.notTruth word)

/-- The truth value of an option. One that is given repeatedly is true. -/
def truthOf : List String → Except Fault Bool
  | [] => .ok false
  | [text] => readTruth text
  | _ => .ok true

/-- Refuses a value that an option cannot have. Only truth values may be given repeatedly. -/
def checkOption : OptionKind → List String → Except Fault Unit
  | _, [] | .word, _ => .ok ()
  | .truth, texts => (truthOf texts).map fun _ => ()
  | .real, [text] => if Text.isReal text then .ok () else .error (.notReal text)
  | .whole, [text] => (readInteger text).map fun _ => ()
  | _, _ => .error .wrongType

/-- Refuses a value that is too wide for a connection, or a level of isolation in several words. -/
def checkWidth : OptionKind → List String → Except Fault Unit
  | .whole, [text] => do
    let n ← readInteger text
    if -(2 ^ 31) ≤ n ∧ n < 2 ^ 31 then .ok () else .error .optionTooWide
  | .word, _ :: _ :: _ => .error .isolationLevel
  | _, _ => .ok ()

def takingOrder : List String :=
  ["timeout", "detect_types", "isolation_level", "check_same_thread", "cached_statements"]

/-- The values of an option as they stand in an address; repeated ones are no value that is known.
-/
def addressValue : List String → String
  | [text] => text
  | texts => "(" ++ String.intercalate ", " (texts.map Text.quoted) ++ ")"

/-- The names in a query that are not about the connection, in the order of their characters. -/
def addressOptions (url : DatabaseUrl) : List String :=
  let names := (url.query.map Prod.fst).eraseDups.filter fun name =>
    !(connectionOptions.map Prod.fst).contains name
  names.mergeSort fun a b => !decide (b < a)

def addressName (url : DatabaseUrl) (database : String) : String :=
  let options := (addressOptions url).map fun name => name ++ "=" ++ addressValue (url.values name)
  if options.isEmpty then database else database ++ "?" ++ String.intercalate "&" options

def ofLocation (url : DatabaseUrl) : Except Fault Database := do
  if url.hasHost then .error .databaseAddress
  connectionOptions.forM fun (name, kind) => checkOption kind (url.values name)
  let isAddress ← truthOf (url.values "uri")
  if isAddress && url.database.isNone && !(addressOptions url).isEmpty then .error .wrongType
  takingOrder.forM fun name =>
    checkWidth ((connectionOptions.lookup name).getD .word) (url.values name)
  match url.database with
  | some name => if isAddress then ofAddress (addressName url name) else ofName name .create
  | none => if isAddress then .error .wrongType else .ok .memory

def ofUrl (text : String) : Except Fault Database := do
  let url ← DatabaseUrl.parse text
  if !(url.values "plugin").isEmpty then .error .unknownDatabase
  checkKind url.kind
  ofLocation url

end Database

/-- The file of the database where none is named. -/
def usualFile : String := "bitmast.db"

/-- The files that stores are kept in. The usual one is kept apart; what it holds is empty until it
is there. -/
structure Shelf where
  usual : Store
  hasUsual : Bool
  files : List (String × Store)

namespace Shelf

def empty : Shelf := ⟨Store.empty, false, []⟩

/-- The store of a file; there is nothing in a file that is not there. -/
def table (shelf : Shelf) (file : String) : Store :=
  if file = usualFile then shelf.usual else (shelf.files.lookup file).getD Store.empty

def holds (shelf : Shelf) (file : String) : Bool :=
  if file = usualFile then shelf.hasUsual else (shelf.files.lookup file).isSome

/-- A database that can be opened: only some uses make a file that is not there. -/
def opened (shelf : Shelf) (database : Database) : Except Fault Database :=
  match database with
  | .file name access =>
    if access = .create || shelf.holds name then .ok database else .error .notOpened
  | .memory => .ok .memory

/-- The database that a url names, opened. The url is looked at before the file is. -/
def openUrl (shelf : Shelf) (url : String) : Except Fault Database :=
  Database.ofUrl url >>= shelf.opened

def get (shelf : Shelf) : Database → Store
  | .memory => Store.empty
  | .file name _ => shelf.table name

/-- Puts the store of a database back. What is kept in memory is forgotten. -/
def put (shelf : Shelf) (database : Database) (store : Store) : Shelf :=
  match database with
  | .memory => shelf
  | .file name _ =>
    if name = usualFile then { shelf with usual := store, hasUsual := true }
    else { shelf with files := (name, store) :: shelf.files }

end Shelf

/-- The most bytes that a row of a database may take. -/
def maxRowBytes : Nat := 1000000000

def Database.isWritable : Database → Bool
  | .file _ .read => false
  | _ => true

end QuorumTree
