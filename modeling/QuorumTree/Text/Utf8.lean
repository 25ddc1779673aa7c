import QuorumTree.Bytes

/-!
Texts in UTF-8, read whatever their bytes are. Bytes that are the beginning of no character, or the
beginning of one that is broken off, become one replacement character.
-/

namespace QuorumTree.Text

def replacement : Char := Char.ofNat 0xfffd

/-- How many bytes follow the first byte of a longer character, and the bounds of the next one. -/
def bytesAfter? (first : Nat) : Option (Nat × Nat × Nat) :=
  if 0xc2 ≤ first ∧ first ≤ 0xdf then some (1, 0x80, 0xbf)
  else if first = 0xe0 then some (2, 0xa0, 0xbf)
  else if first = 0xed then some (2, 0x80, 0x9f)
  else if 0xe1 ≤ first ∧ first ≤ 0xef then some (2, 0x80, 0xbf)
  else if first = 0xf0 then some (3, 0x90, 0xbf)
  else if 0xf1 ≤ first ∧ first ≤ 0xf3 then some (3, 0x80, 0xbf)
  else if first = 0xf4 then some (3, 0x80, 0x8f)
  else none

/-- The bytes that continue a character, at most the given count. The bounds are those of the first;
every other one lies between `0x80` and `0xbf`. -/
def continuation : Nat → Nat → Nat → Bytes → Bytes
  | 0, _, _, _ | _, _, _, [] => []
  | count + 1, least, greatest, b :: rest =>
    if least ≤ b.toNat ∧ b.toNat ≤ greatest then b :: continuation count 0x80 0xbf rest else []

def charOfBytes (first : Nat) (rest : Bytes) : Char :=
  Char.ofNat (rest.foldl (fun code b => 64 * code + b.toNat % 64) (first % 2 ^ (6 - rest.length)))

def decodeUtf8 : Bytes → List Char
  | [] => []
  | b :: rest =>
    if b.toNat < 0x80 then Char.ofNat b.toNat :: decodeUtf8 rest
    else match bytesAfter? b.toNat with
      | none => replacement :: decodeUtf8 rest
      | some (count, least, greatest) =>
        let read := continuation count least greatest rest
        (if read.length = count then charOfBytes b.toNat read else replacement) ::
          decodeUtf8 (rest.drop read.length)
termination_by bytes => bytes.length
decreasing_by all_goals simp only [List.length_cons, List.length_drop]; omega

end QuorumTree.Text
