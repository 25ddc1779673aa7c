import QuorumTree.Curve.Jacobian
import QuorumTree.Fault

/-!
Public keys: the finite points of secp256k1. A key is written in thirty-three bytes, a tag for the
parity of y and then x; it is also read from its uncompressed and hybrid forms, and from x alone,
which stands for the point with an even y. Keys are ordered by their compressed form.
-/

namespace QuorumTree

structure PublicKey where
  x : Coordinate
  y : Coordinate
  onCurve : Point.OnCurve x y
  deriving DecidableEq

namespace PublicKey

def toPoint (key : PublicKey) : Point :=
  .affine key.x key.y

def ofCoordinates? (x y : Coordinate) : Option PublicKey :=
  if h : Point.OnCurve x y then some ⟨x, y, h⟩ else none

def ofPoint? : Point → Option PublicKey
  | .infinity => none
  | .affine x y => ofCoordinates? x y

def hasEvenY (key : PublicKey) : Bool :=
  key.y.isEven

/-- The x-coordinate in thirty-two bytes. -/
def xOnly (key : PublicKey) : Bytes32 :=
  .ofNat key.x.val

/-- The byte that tells the parity of y in the compressed form. -/
def parityTag (isEven : Bool) : UInt8 :=
  if isEven then 0x02 else 0x03

/-- The compressed form. -/
def bytes (key : PublicKey) : Bytes :=
  parityTag key.hasEvenY :: key.xOnly.bytes

def hex (key : PublicKey) : String :=
  Hex.encode key.bytes

theorem length_bytes (key : PublicKey) : key.bytes.length = 33 := by
  simp [bytes, key.xOnly.length_bytes]

def negate (key : PublicKey) : PublicKey :=
  ⟨key.x, -key.y, key.onCurve.neg⟩

/-- The key with the given x-coordinate whose y is even or odd as asked. -/
def lift? (x : Coordinate) (isEven : Bool) : Option PublicKey := do
  let y ← Coordinate.sqrt? (x * x * x + 7)
  ofCoordinates? x (if y.isEven = isEven then y else -y)

def coordinate? (bytes : Bytes) : Option Coordinate :=
  Coordinate.ofNat? (Bytes.ofBigEndian bytes)

def ofCompressed? : Bytes → Option PublicKey
  | tag :: x =>
    if x.length = 32 ∧ (tag = 0x02 ∨ tag = 0x03) then
      (coordinate? x).bind (lift? · (tag = 0x02))
    else none
  | [] => none

/-- The key that an uncompressed form denotes. A hybrid form also tells the parity of y, which has
to agree. -/
def ofUncompressed? : Bytes → Option PublicKey
  | tag :: xy =>
    if xy.length = 64 then do
      let key ← ofCoordinates? (← coordinate? (xy.take 32)) (← coordinate? (xy.drop 32))
      if tag = 0x04 ∨ tag = (if key.hasEvenY then 0x06 else 0x07) then some key else none
    else none
  | [] => none

def ofCompressed (bytes : Bytes) : Except Fault PublicKey :=
  match bytes with
  | [] => .error (.keyForm bytes)
  | tag :: _ =>
    if bytes.length ≠ 33 ∨ ¬ (tag = 0x02 ∨ tag = 0x03) then .error (.keyForm bytes)
    else match ofCompressed? bytes with
      | some key => .ok key
      | none => .error (.keyOffCurve bytes)

/-- The key of an x-only, compressed, uncompressed or hybrid form. -/
def ofBytes (bytes : Bytes) : Except Fault PublicKey :=
  if bytes.length = 32 then ofCompressed (0x02 :: bytes)
  else if bytes.length = 33 then ofCompressed bytes
  else if bytes.length = 65 then
    match ofUncompressed? bytes with
    | some key => .ok key
    | none => .error (.keyOffCurve bytes)
  else .error (.keyLength bytes.length)

/-- The key that a hexadecimal text spells, with blanks between its bytes. -/
def ofHex (text : String) : Except Fault PublicKey :=
  match Hex.decodeSpaced text with
  | .ok bytes => ofBytes bytes
  | .error _ => .error (.keyHex text)

/-- The key with the same x-coordinate whose y is even. -/
def withEvenY (key : PublicKey) : PublicKey :=
  if key.hasEvenY then key else key.negate

/-- The key plus a multiple of the generator, unless that is the point at infinity. -/
def addGenerator? (key : PublicKey) (n : Nat) : Option PublicKey :=
  ofPoint? (key.toPoint.add (Point.scale n .generator))

def ofSecret (secret : Bytes) : Except Fault PublicKey :=
  let n := Bytes.ofBigEndian secret
  if n = 0 ∨ groupOrder ≤ n then .error .secretRange
  else match ofPoint? (Point.scale n .generator) with
    | some key => .ok key
    | none => .error .secretRange

/-- The order of the compressed forms, byte by byte. -/
def le (a b : PublicKey) : Bool :=
  decide (a.bytes ≤ b.bytes)

end PublicKey

end QuorumTree
