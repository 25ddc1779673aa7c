import QuorumTree.HexText
import QuorumTree.Quorum.Combination

/-!
Participants and the quorums they form. Participants are kept in the order of their keys, so the
order in which they are named makes no difference; a quorum is named by indices or by keys.
-/

namespace QuorumTree

/-- The first key that is followed by itself. -/
def firstRepeated : List PublicKey → Option PublicKey
  | a :: b :: rest => if a = b then some a else firstRepeated (b :: rest)
  | _ => none

variable [Machine]

/-- The keys of a list of values in ascending order; at least one, and none twice. -/
def sortParticipants (values : List Datum) : Except Fault (List PublicKey) := do
  let sorted := (← values.mapM PublicKey.ofDatum).mergeSort PublicKey.le
  if sorted.isEmpty then .error .noParticipants
  else match firstRepeated sorted with
    | some key => .error (.repeatedParticipant key.bytes)
    | none => .ok sorted

namespace Combination

/-- The indices of members that are all numbers. -/
def indices? (members : List Datum) : Option (List Int) :=
  members.mapM fun
    | .int index => some index
    | _ => none

def indexOfNumber (count : Nat) (index : Int) : Except Fault Nat :=
  if 0 ≤ index ∧ index < count then .ok index.toNat
  else .error (.telling [.whole index] (.signerRange index))

def indexOfKey (participants : List PublicKey) (member : Datum) : Except Fault Nat :=
  match PublicKey.ofDatum member with
  | .error fault =>
    .error (if fault.kind.isInvalidValue then
      .telling member.numbers (.badSigner member.shown fault.message) else fault)
  | .ok key =>
    match participants.idxOf? key with
    | some index => .ok index
    | none => .error (.notParticipant key.bytes)

def memberIndices (participants : List PublicKey) (members : List Datum) :
    Except Fault (List Nat) :=
  match members, indices? members with
  | _ :: _, some indices => indices.mapM (indexOfNumber participants.length)
  | _, _ => members.mapM (indexOfKey participants)

/-- The quorum of exactly `m` participants that the members name, in any order. -/
def resolve (participants : List PublicKey) (m : Datum) (members : List Datum) :
    Except Fault Combination := do
  let indices ← memberIndices participants members
  if ¬ indices.Nodup then .error .repeatedSigner
  else if !(Datum.int indices.length).same m then
    .error (.telling m.numbers (.signerCount indices.length m.display))
  else .ok (indices.mergeSort fun a b => decide (a ≤ b))

end Combination

end QuorumTree
