import QuorumTree.Environment
import QuorumTree.Text.Percent
import QuorumTree.Text.Word

/-!
The parts of a database's url: a kind, a user with a password, a host with the number of a service
there, a database and a query. Every part but the kind may be missing, and what fits none of them is
left out.
-/

namespace QuorumTree

structure DatabaseUrl where
  kind : String
  user : Option String
  password : Option String
  host : Option String
  service : Option Int
  database : Option String
  query : List (String × String)

namespace DatabaseUrl

def isKindChar (c : Char) : Bool :=
  c == '+' || Text.isWord c

/-- The kind that a url opens with, and what follows the two slashes. -/
def splitKind? (cs : List Char) : Option (String × List Char) :=
  match cs.takeWhile isKindChar, cs.dropWhile isKindChar with
  | _ :: _, ':' :: '/' :: '/' :: rest => some (String.ofList (cs.takeWhile isKindChar), rest)
  | _, _ => none

def splitLast? (mark : Char) (cs : List Char) : Option (List Char × List Char) :=
  match cs.reverse.dropWhile (· ≠ mark) with
  | _ :: before => some (before.reverse, (cs.reverse.takeWhile (· ≠ mark)).reverse)
  | [] => none

/-- The user and the password before an at sign, and what follows it. A password begins at the first
colon, and ends at the first at sign after it; a user alone ends at the last. -/
def splitCredentials (cs : List Char) : Option (List Char) × Option (List Char) × List Char :=
  let isUserChar := fun (c : Char) => c != ':' && c != '/'
  let user := cs.takeWhile isUserChar
  let rest := cs.dropWhile isUserChar
  match rest with
  | ':' :: after =>
    match after.dropWhile (· ≠ '@') with
    | _ :: location => (some user, some (after.takeWhile (· ≠ '@')), location)
    | [] => userAlone user rest
  | _ => userAlone user rest
where
  userAlone (user rest : List Char) : Option (List Char) × Option (List Char) × List Char :=
    match splitLast? '@' user with
    | some (user, location) => (some user, none, location ++ rest)
    | none => (none, none, user ++ rest)

def splitBracketed? (cs : List Char) : Option (List Char × List Char) :=
  let isHostChar := fun (c : Char) => c != '/' && c != '?'
  match cs with
  | '[' :: c :: rest =>
    if isHostChar c then
      (splitLast? ']' (rest.takeWhile isHostChar)).map fun (host, after) =>
        (c :: host, after ++ rest.dropWhile isHostChar)
    else none
  | _ => none

def splitHost (cs : List Char) : List Char × List Char :=
  let isHostChar := fun (c : Char) => c != '/' && c != ':' && c != '?'
  (splitBracketed? cs).getD (cs.takeWhile isHostChar, cs.dropWhile isHostChar)

def splitMarked (mark : Char) (isPart : Char → Bool) (cs : List Char) :
    Option (List Char) × List Char :=
  match cs with
  | c :: rest =>
    if c = mark then (some (rest.takeWhile isPart), rest.dropWhile isPart) else (none, cs)
  | [] => (none, [])

/-- The number of a service. An empty one is refused. -/
def readService : Option (List Char) → Except Fault (Option Int)
  | none => .ok none
  | some [] => .error .wrongType
  | some digits => (readInteger (String.ofList digits)).map some

def decoded (part : Option (List Char)) : Option String :=
  part.map fun cs => String.ofList (Text.percentDecode cs)

def parse (url : String) : Except Fault DatabaseUrl := do
  match splitKind? url.toList with
  | none => .error .databaseAddress
  | some (kind, rest) =>
    let (user, password, location) := splitCredentials rest
    let (host, afterHost) := splitHost location
    let (service, afterService) := splitMarked ':' (fun c => c != '/' && c != '?') afterHost
    let (database, afterDatabase) := splitMarked '/' (· != '?') afterService
    let (query, _) := splitMarked '?' (· != '\n') afterDatabase
    return {
      kind
      user := decoded user
      password := decoded password
      host := if host.isEmpty then none else some (String.ofList host)
      service := ← readService service
      database := decoded database
      query := Text.queryFields (query.getD []) }

def values (url : DatabaseUrl) (name : String) : List String :=
  (url.query.filter (·.1 == name)).map Prod.snd

/-- Whether the url says where else than in a file its database is. -/
def hasHost (url : DatabaseUrl) : Bool :=
  url.user.any (!·.isEmpty) || url.password.any (!·.isEmpty) || url.host.isSome ||
    url.service.any (· ≠ 0)

end DatabaseUrl

end QuorumTree
