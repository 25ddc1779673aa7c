import QuorumTree.Binary64.Shortest

/-!
Numbers of every kind: whole ones, truth values that count as one and zero, and floating-point ones.
They are compared by value, exactly; only whole numbers and truth values count things.
-/

namespace QuorumTree

inductive Number
  | truth (value : Bool)
  | whole (value : Int)
  | real (value : Binary64)
  deriving DecidableEq

instance : Inhabited Number := ⟨.whole 0⟩

namespace Number

/-- The whole number that a number counts as; a floating-point number counts nothing. -/
def toInt? : Number → Option Int
  | truth value => some (if value then 1 else 0)
  | whole value => some value
  | real _ => none

/-- The place of a number among the others: a whole multiple of the smallest floating-point number,
or a place at one of the ends, or none. -/
inductive Place
  | nowhere
  | bottom
  | among (multiple : Int)
  | top
  deriving DecidableEq

def Place.lt : Place → Place → Bool
  | bottom, among _ | bottom, top | among _, top => true
  | among a, among b => decide (a < b)
  | _, _ => false

def place : Number → Place
  | truth value => .among ((if value then 1 else 0) * 2 ^ (-Binary64.leastExponent).toNat)
  | whole value => .among (value * 2 ^ (-Binary64.leastExponent).toNat)
  | real .notANumber => .nowhere
  | real (.infinite isNegative) => if isNegative then .bottom else .top
  | real (.finite isNegative significand exponent) =>
    .among (Binary64.scaled isNegative significand exponent)

def lt (a b : Number) : Bool :=
  match a.toInt?, b.toInt? with
  | some m, some n => decide (m < n)
  | _, _ => a.place.lt b.place

def same (a b : Number) : Bool :=
  match a.toInt?, b.toInt? with
  | some m, some n => decide (m = n)
  | _, _ => a.place != .nowhere && a.place == b.place

def le (a b : Number) : Bool :=
  match a.toInt?, b.toInt? with
  | some m, some n => decide (m ≤ n)
  | _, _ => a.lt b || a.same b

@[simp] theorem whole_lt_whole (m n : Int) : lt (whole m) (whole n) = decide (m < n) := rfl

@[simp] theorem whole_le_whole (m n : Int) : le (whole m) (whole n) = decide (m ≤ n) := rfl

@[simp] theorem whole_same_whole (m n : Int) : same (whole m) (whole n) = decide (m = n) := rfl

def shown : Number → String
  | truth true => "True"
  | truth false => "False"
  | whole value => toString value
  | real value => value.shown

instance : ToString Number := ⟨shown⟩

def isWritable (number : Number) : Bool :=
  number.toInt?.all Text.isWritable

/-- A number as a floating-point one, unless it is beyond the largest of them. -/
def toBinary64? : Number → Option Binary64
  | real value => some value
  | truth value => some (.ofInt (if value then 1 else 0))
  | whole value =>
    match Binary64.ofInt value with
    | .infinite _ => none
    | rounded => some rounded

/-- A sum: exact for numbers that count, and rounded when one of them is a floating-point number. It
is missing where a whole number is beyond the largest of those. -/
def add? (a b : Number) : Option Number :=
  match a.toInt?, b.toInt? with
  | some m, some n => some (whole (m + n))
  | _, _ => do return real ((← a.toBinary64?).add (← b.toBinary64?))

/-- The least whole number that is not below a number, if there is one. -/
def ceiling? : Number → Option Int
  | real value => value.ceiling?
  | number => number.toInt?

end Number

end QuorumTree
