import QuorumTree.Hash.Tagged

/-!
What is fed to SHA-256 for leaves and branches. A message tells what was hashed, and no leaf has the
message of a branch; so where no two messages collide, neither do the hashes.
-/

namespace QuorumTree

theorem Bytes32.eq_of_bytes_eq {a b : Bytes32} (h : a.bytes = b.bytes) : a = b := by
  cases a
  cases b
  cases h
  rfl

/-- A message tells its data, and its tag up to a collision. -/
theorem taggedMessage_inj {tag other data rest : Bytes}
    (h : taggedMessage tag data = taggedMessage other rest) :
    sha256 tag = sha256 other ∧ data = rest := by
  have hwidth : ((sha256 tag).bytes ++ (sha256 tag).bytes).length =
      ((sha256 other).bytes ++ (sha256 other).bytes).length := by
    simp only [List.length_append, Bytes32.length_bytes]
  obtain ⟨htags, hdata⟩ := List.append_inj h hwidth
  obtain ⟨htag, -⟩ := List.append_inj' htags (by simp only [Bytes32.length_bytes])
  exact ⟨Bytes32.eq_of_bytes_eq htag, hdata⟩

/-- What is hashed for the leaf of an x-only key. -/
def leafMessage (key : Bytes32) : Bytes :=
  taggedMessage Tag.leaf (leafData key.bytes)

/-- What is hashed for the branch of two children. -/
def branchMessage (pair : Bytes32 × Bytes32) : Bytes :=
  taggedMessage Tag.branch (pair.1.bytes ++ pair.2.bytes)

theorem leafData_eq (key : Bytes32) :
    leafData key.bytes = [0xc0, 0x22, 0x20] ++ key.bytes ++ [0xac] := by
  have hscript : keyScript key.bytes = 0x20 :: key.bytes ++ [0xac] := by
    rw [keyScript, key.length_bytes]
    rfl
  have hlength : (keyScript key.bytes).length = 34 := by
    rw [hscript]
    simp [key.length_bytes]
  rw [leafData, hlength, hscript]
  rfl

theorem leafData_injective {key other : Bytes} (hkey : key.length = 32) (hother : other.length = 32)
    (h : leafData key = leafData other) : key = other := by
  have hdata := (leafData_eq ⟨key, hkey⟩).symm.trans (h.trans (leafData_eq ⟨other, hother⟩))
  exact List.append_cancel_left (List.append_cancel_right hdata)

theorem leafMessage_injective {key other : Bytes32} (h : leafMessage key = leafMessage other) :
    key = other := by
  obtain ⟨-, hdata⟩ := taggedMessage_inj h
  exact Bytes32.eq_of_bytes_eq (leafData_injective key.length_bytes other.length_bytes hdata)

theorem branchMessage_injective {pair other : Bytes32 × Bytes32}
    (h : branchMessage pair = branchMessage other) : pair = other := by
  have hwidth : pair.1.bytes.length = other.1.bytes.length := by
    rw [pair.1.length_bytes, other.1.length_bytes]
  obtain ⟨hleft, hright⟩ := List.append_inj (taggedMessage_inj h).2 hwidth
  exact Prod.ext (Bytes32.eq_of_bytes_eq hleft) (Bytes32.eq_of_bytes_eq hright)

theorem length_taggedMessage (tag data : Bytes) :
    (taggedMessage tag data).length = 64 + data.length := by
  simp only [taggedMessage, List.length_append, Bytes32.length_bytes]

/-- The messages of leaves are shorter than those of branches. -/
theorem leafMessage_ne_branchMessage (key : Bytes32) (pair : Bytes32 × Bytes32) :
    leafMessage key ≠ branchMessage pair := by
  intro h
  have hlength := congrArg List.length h
  rw [leafMessage, branchMessage, length_taggedMessage, length_taggedMessage, leafData_eq]
    at hlength
  simp [Bytes32.length_bytes] at hlength

/-- No two different messages have one digest. -/
def NoCollision (messages : List Bytes) : Prop :=
  ∀ a ∈ messages, ∀ b ∈ messages, sha256 a = sha256 b → a = b

instance (messages : List Bytes) : Decidable (NoCollision messages) :=
  inferInstanceAs (Decidable (∀ a ∈ messages, ∀ b ∈ messages, sha256 a = sha256 b → a = b))

theorem NoCollision.subset {messages others : List Bytes} (h : NoCollision messages)
    (hsubset : others ⊆ messages) : NoCollision others :=
  fun a ha b hb => h a (hsubset ha) b (hsubset hb)

/-- No two different pairs have one branch. -/
def NoBranchCollision (pairs : List (Bytes32 × Bytes32)) : Prop :=
  ∀ a ∈ pairs, ∀ b ∈ pairs, branchHash a.1 a.2 = branchHash b.1 b.2 → a = b

instance (pairs : List (Bytes32 × Bytes32)) : Decidable (NoBranchCollision pairs) :=
  inferInstanceAs (Decidable
    (∀ a ∈ pairs, ∀ b ∈ pairs, branchHash a.1 a.2 = branchHash b.1 b.2 → a = b))

theorem NoCollision.branches {messages : List Bytes} {pairs : List (Bytes32 × Bytes32)}
    (h : NoCollision messages) (hpairs : ∀ pair ∈ pairs, branchMessage pair ∈ messages) :
    NoBranchCollision pairs :=
  fun a ha b hb hhash => branchMessage_injective (h _ (hpairs a ha) _ (hpairs b hb) hhash)

theorem NoBranchCollision.subset {pairs others : List (Bytes32 × Bytes32)}
    (h : NoBranchCollision pairs) (hsubset : others ⊆ pairs) : NoBranchCollision others :=
  fun a ha b hb => h a (hsubset ha) b (hsubset hb)

end QuorumTree
