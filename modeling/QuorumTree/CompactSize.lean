import QuorumTree.Fault

/-!
Compact sizes: whole numbers below 2^64 in one, three, five or nine bytes. A marker byte tells how
many little-endian bytes follow; a number has one encoding, the shortest, and no other is read.
-/

namespace QuorumTree.CompactSize

def encode (n : Nat) : Bytes :=
  if n < 0xfd then [UInt8.ofNat n]
  else if n ≤ 0xffff then 0xfd :: Bytes.littleEndian 2 n
  else if n ≤ 0xffffffff then 0xfe :: Bytes.littleEndian 4 n
  else 0xff :: Bytes.littleEndian 8 n

/-- The encoding of a length, where it has one. A number that counts nothing has none, whether it
would fit one byte or not. -/
def ofLength (length : Number) : Except Fault Bytes :=
  if length.lt (.whole 0) then .error (.telling [length] (.negativeLength length))
  else match length.toInt? with
    | some n => if n < 2 ^ 64 then .ok (encode n.toNat) else .error .lengthTooWide
    | none => .error (if length.lt (.whole 0xfd) then .wrongType else .noSuchField)

def widthAfter (marker : UInt8) : Nat :=
  if marker < 0xfd then 0
  else if marker = 0xfd then 2
  else if marker = 0xfe then 4
  else 8

/-- The place in a string of `length` bytes that a position names, where negative positions count
from the end; what lies before the start is brought to it. -/
def place (length : Nat) (position : Int) : Nat :=
  if position < 0 then (length + position).toNat else position.toNat

def slice (data : Bytes) (first last : Int) : Bytes :=
  (data.take (place data.length last)).drop (place data.length first)

/-- Reads the number at a position, and the position after it. A negative position counts from the
end, and so do the positions reached from it. -/
def decodeAt (data : Bytes) (offset : Int) : Except Fault (Nat × Int) :=
  if data.length ≤ offset then .error .truncatedSize
  else if data.length + offset < 0 then .error .noSuchPosition
  else match data[place data.length offset]? with
    | none => .error .noSuchPosition
    | some marker =>
      let width := widthAfter marker
      let last := offset + 1 + width
      if width = 0 then .ok (marker.toNat, last)
      else if data.length < last then .error .truncatedSize
      else
        let value := Bytes.ofLittleEndian (slice data (offset + 1) last)
        if (encode value).length = 1 + width then .ok (value, last)
        else .error (.overlongSize value)

/-- Reads the number that the data opens with, and how many bytes it took. -/
def decode (data : Bytes) : Except Fault (Nat × Nat) :=
  (decodeAt data 0).map fun (value, last) => (value, last.toNat)

end QuorumTree.CompactSize
