import QuorumTree.Aggregation.MuSig
import QuorumTree.Proofs.Hash.Messages
import QuorumTree.Proofs.PublicKey

/-!
Hashes made for different purposes. There are five of them, each with its own tag, and what is fed
to SHA-256 tells the purpose and everything that was hashed for it. So hashes that agree where they
should not show two messages with one digest.
-/

namespace QuorumTree

/-- One use of a tagged hash, with what it is given. -/
inductive HashCall
  | leaf (key : Bytes)
  | branch (left right : Bytes)
  | tweak (internalKey root : Bytes)
  | keyList (keys : List PublicKey)
  | coefficient (listHash : Bytes) (key : PublicKey)

namespace HashCall

def tag : HashCall → Bytes
  | leaf _ => Tag.leaf
  | branch _ _ => Tag.branch
  | tweak _ _ => Tag.tweak
  | keyList _ => Tag.keyList
  | coefficient _ _ => Tag.keyCoefficient

def data : HashCall → Bytes
  | leaf key => leafData key
  | branch left right => left ++ right
  | tweak internalKey root => internalKey ++ root
  | keyList keys => keys.flatMap PublicKey.bytes
  | coefficient listHash key => listHash ++ key.bytes

/-- What is fed to SHA-256. -/
def message (call : HashCall) : Bytes :=
  taggedMessage call.tag call.data

/-- The answer to the call, which is refused when what it is given has not the right width. -/
def answer : HashCall → Except Fault Bytes32
  | leaf key => leafHashOf key
  | branch left right => branchHashOf left right
  | tweak internalKey root => tweakHashOf internalKey root
  | keyList keys => .ok (keyListHash keys)
  | coefficient listHash key => .ok (coefficientHash listHash key)

/-- What an answered call was given: hashes and x-coordinates have thirty-two bytes. -/
def IsSized : HashCall → Prop
  | leaf key => key.length = 32
  | branch left right => left.length = 32 ∧ right.length = 32
  | tweak internalKey root => internalKey.length = 32 ∧ root.length = 32
  | keyList _ | coefficient _ _ => True

/-- A call is answered exactly when it has the right width, with the digest of its message. -/
theorem answer_eq_ok_iff {call : HashCall} {digest : Bytes32} :
    call.answer = .ok digest ↔ call.IsSized ∧ sha256 call.message = digest := by
  cases call with
  | leaf key =>
      rw [answer, leafHashOf, Bytes32.ofBytes?, IsSized]
      split_ifs with hkey
      · simp only [Except.ok.injEq, hkey, true_and]
        rfl
      · simp [hkey]
  | branch left right =>
      rw [answer, branchHashOf, Bytes32.ofBytes?, Bytes32.ofBytes?, IsSized]
      by_cases hleft : left.length = 32
      · by_cases hright : right.length = 32
        · simp only [hleft, hright, dif_pos, Except.ok.injEq, and_self, true_and]
          rfl
        · simp [hright]
      · simp [hleft]
  | tweak internalKey root =>
      rw [answer, tweakHashOf, Bytes32.ofBytes?, Bytes32.ofBytes?, IsSized]
      by_cases hkey : internalKey.length = 32
      · by_cases hroot : root.length = 32
        · simp only [hkey, hroot, dif_pos, Except.ok.injEq, and_self, true_and]
          rfl
        · simp [hkey, hroot]
      · by_cases hroot : root.length = 32 <;> simp [hkey, hroot]
  | keyList keys =>
      rw [answer, Except.ok.injEq, IsSized, true_and]
      rfl
  | coefficient listHash key =>
      rw [answer, Except.ok.injEq, IsSized, true_and]
      rfl

/-! ### Messages -/

/-- Different tags have different digests. -/
theorem tag_eq_of_sha256_eq {call other : HashCall} (h : sha256 call.tag = sha256 other.tag) :
    call.tag = other.tag := by
  have hdigests : ∀ tag ∈ [Tag.leaf, Tag.branch, Tag.tweak, Tag.keyList, Tag.keyCoefficient],
      ∀ other ∈ [Tag.leaf, Tag.branch, Tag.tweak, Tag.keyList, Tag.keyCoefficient],
        sha256 tag = sha256 other → tag = other := by
    decide +kernel
  have hmem (call : HashCall) :
      call.tag ∈ [Tag.leaf, Tag.branch, Tag.tweak, Tag.keyList, Tag.keyCoefficient] := by
    cases call <;> simp [tag]
  exact hdigests _ (hmem call) _ (hmem other) h

/-- Keys have one width, so their bytes in a row tell where each begins. -/
theorem flatMap_bytes_injective {keys others : List PublicKey}
    (h : keys.flatMap PublicKey.bytes = others.flatMap PublicKey.bytes) : keys = others := by
  induction keys generalizing others with
  | nil =>
      cases others with
      | nil => rfl
      | cons other others => cases h
  | cons key keys ih =>
      cases others with
      | nil => cases h
      | cons other others =>
          rw [List.flatMap_cons, List.flatMap_cons] at h
          have hwidth : key.bytes.length = other.bytes.length := by
            rw [key.length_bytes, other.length_bytes]
          obtain ⟨hkey, hrest⟩ := List.append_inj h hwidth
          rw [PublicKey.bytes_injective hkey, ih hrest]

/-- Calls of the right width are known from their messages. -/
theorem message_injective {call other : HashCall} (hcall : call.IsSized) (hother : other.IsSized)
    (h : call.message = other.message) : call = other := by
  obtain ⟨htags, hdata⟩ := taggedMessage_inj h
  have htag := tag_eq_of_sha256_eq htags
  -- The tags leave the two calls of one kind; the widths then tell the arguments apart.
  cases call <;> cases other <;> try cases htag
  case leaf.leaf key other => rw [leafData_injective hcall hother hdata]
  case branch.branch left right left' right' =>
    obtain ⟨hleft, hright⟩ := List.append_inj hdata (hcall.1.trans hother.1.symm)
    rw [hleft, hright]
  case tweak.tweak internalKey root internalKey' root' =>
    obtain ⟨hkey, hroot⟩ := List.append_inj hdata (hcall.1.trans hother.1.symm)
    rw [hkey, hroot]
  case keyList.keyList keys others => rw [flatMap_bytes_injective hdata]
  case coefficient.coefficient listHash key listHash' key' =>
    have hwidth : key.bytes.length = key'.bytes.length := by
      rw [key.length_bytes, key'.length_bytes]
    obtain ⟨hlist, hkey⟩ := List.append_inj' hdata hwidth
    rw [hlist, PublicKey.bytes_injective hkey]

/-- Hash domains do not overlap. Calls that are answered are answered with the digests of their
messages, and calls with one message are one call: of the same kind and with the same arguments. So
answers that agree without being made from the same arguments for the same purpose are a collision
of SHA-256. -/
theorem answered_messages_disjoint {call other : HashCall} {digest otherDigest : Bytes32}
    (hcall : call.answer = .ok digest) (hother : other.answer = .ok otherDigest) :
    digest = sha256 call.message ∧ otherDigest = sha256 other.message ∧
      (call.message = other.message → call = other) ∧
      (call ≠ other → digest = otherDigest →
        call.message ≠ other.message ∧ sha256 call.message = sha256 other.message) := by
  obtain ⟨hsized, hdigest⟩ := answer_eq_ok_iff.mp hcall
  obtain ⟨hothers, hotherDigest⟩ := answer_eq_ok_iff.mp hother
  have hinjective := message_injective hsized hothers
  refine ⟨hdigest.symm, hotherDigest.symm, hinjective, fun hdiffers hsame => ⟨?_, ?_⟩⟩
  · exact fun hmessage => hdiffers (hinjective hmessage)
  · rw [hdigest, hotherDigest, hsame]

/-- A branch and a tweak of the same bytes are told apart by their tags alone. -/
theorem answered_messages_disjoint_branch_tweak :
    ∃ digest otherDigest, let zero := (Bytes32.ofNat 0).bytes
      (branch zero zero).answer = .ok digest ∧ (tweak zero zero).answer = .ok otherDigest ∧
        (branch zero zero).data = (tweak zero zero).data ∧
        (branch zero zero).message ≠ (tweak zero zero).message := by
  let zero := (Bytes32.ofNat 0).bytes
  have hzero : zero.length = 32 := (Bytes32.ofNat 0).length_bytes
  have hbranch : (branch zero zero).answer = .ok (sha256 (branch zero zero).message) :=
    answer_eq_ok_iff.mpr ⟨⟨hzero, hzero⟩, rfl⟩
  have htweak : (tweak zero zero).answer = .ok (sha256 (tweak zero zero).message) :=
    answer_eq_ok_iff.mpr ⟨⟨hzero, hzero⟩, rfl⟩
  obtain ⟨-, -, hinjective, -⟩ := answered_messages_disjoint hbranch htweak
  exact ⟨_, _, hbranch, htweak, rfl, fun h => nomatch hinjective h⟩

end HashCall

end QuorumTree
