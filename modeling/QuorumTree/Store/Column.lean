import QuorumTree.Datum
import QuorumTree.Store.Numeral

/-!
What the columns of a row keep of the values written to them. Values are put into the form of their
columns, handed to the row, and kept, in this order and each time all of them. A column of numbers
keeps a text that spells a number as the number, and a floating-point number that is whole as a
whole one; a column of texts keeps a number as its text; a column of lists keeps every value that
lists are made of.
-/

namespace QuorumTree

inductive Column
  | id
  | name
  | threshold
  | participants
  | budget
  | dropped
  | merkleRoot
  | internalKey
  | outputKey
  | leafHashes
  | createdAt
  deriving DecidableEq, Repr

/-- Whether a whole number can be kept: it has to fit sixty-four bits with a sign. -/
def fitsColumn (n : Int) : Bool :=
  -(2 ^ 63) ≤ n && n < 2 ^ 63

namespace Datum

/-- A floating-point number as it is kept: as a whole number where it is one that stands strictly
between the bounds, and as nothing where it is no number. -/
def ofKeptReal (value : Binary64) : Datum :=
  if value = .notANumber then .null
  else match value.toInt? with
    | some n => if -(2 ^ 63) < n ∧ n < 2 ^ 63 then .int n else .real value
    | none => .real value

def ofNumericText? (text : String) : Option Datum :=
  (Text.Numeral.read? (Text.stripChars Text.isAsciiBlank text.toList)).map fun numeral =>
    let whole : Int := if numeral.isNegative then -numeral.mantissa else numeral.mantissa
    if numeral.isPlain && fitsColumn whole then .int whole
    else ofKeptReal (Store.Numeral.read numeral)

mutual

/-- Whether a value is one that lists are made of: nothing, a number, a text, or a list of such. -/
def isPlain : Datum → Bool
  | null | number _ | text _ => true
  | list items => arePlain items
  | _ => false

def arePlain : List Datum → Bool
  | [] => true
  | item :: items => item.isPlain && arePlain items

end

/-- A value that is no list can be handed to a row: a number that fits, a text, bytes, or nothing.
-/
def checkCell : Datum → Except Fault Unit
  | int n => if fitsColumn n then .ok () else .error .columnTooWide
  | null | bool _ | real _ | text _ | bytes _ => .ok ()
  | _ => .error .notStorable

def keptAsNumber : Datum → Datum
  | bool b => .int (if b then 1 else 0)
  | real value => ofKeptReal value
  | text value => (ofNumericText? value).getD (.text value)
  | value => value

def keptAsText : Datum → Datum
  | int n => .text (toString n)
  | bool b => .text (if b then "1" else "0")
  | real value => if value = .notANumber then .null else .text (Store.Numeral.write value)
  | value => value

def cellBytes : Datum → Nat
  | text value => value.utf8ByteSize
  | bytes value => value.length
  | _ => 0

/-- The bytes of the items of a list, which stand in quotes with separators between them. -/
def itemBytes : List Datum → Nat
  | [] => 0
  | item :: items => item.cellBytes + 4 + itemBytes items

/-- The bytes that the texts of a value take in a row. -/
def textBytes : Datum → Nat
  | list items => itemBytes items
  | value => value.cellBytes

def required : Datum → Except Fault Datum
  | null => .error .missingColumn
  | value => .ok value

def asRowNumber : Datum → Except Fault Datum
  | int n => .ok (.int n)
  | _ => .error .notRowNumber

end Datum

namespace Column

def all : List Column :=
  [id, name, threshold, participants, budget, dropped, merkleRoot, internalKey, outputKey,
    leafHashes, createdAt]

/-- A value can be put into the form of a column. The time of a row is not among the values, so only
its absence can. -/
def checkForm : Column → Datum → Except Fault Unit
  | participants, value | leafHashes, value =>
    if value.isPlain then .ok () else .error .notEncodable
  | createdAt, .null => .ok ()
  | createdAt, _ => .error .notEncodable
  | _, _ => .ok ()

def checkCell : Column → Datum → Except Fault Unit
  | participants, _ | leafHashes, _ | createdAt, _ => .ok ()
  | _, value => value.checkCell

def kept : Column → Datum → Except Fault Datum
  | id, value => value.keptAsNumber.asRowNumber
  | threshold, value | dropped, value => value.keptAsNumber.required
  | budget, value => .ok value.keptAsNumber
  | name, value | merkleRoot, value | internalKey, value | outputKey, value =>
    value.keptAsText.required
  | participants, value | leafHashes, value => .ok value
  | createdAt, value => value.required

/-- Values as their columns keep them. All of them are put into form before the first is handed
over, and all are handed over before the row is written. -/
def keepAll (values : List (Column × Datum)) : Except Fault (List (Column × Datum)) := do
  values.forM fun (column, value) => column.checkForm value
  values.forM fun (column, value) => column.checkCell value
  values.mapM fun (column, value) => return (column, ← column.kept value)

end Column

end QuorumTree
