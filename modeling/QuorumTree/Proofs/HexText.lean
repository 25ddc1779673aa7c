import QuorumTree.HexText
import QuorumTree.Proofs.PublicKey
import QuorumTree.Proofs.Text.HexGrammar
import QuorumTree.Proofs.Traversal

/-!
Values written as hexadecimal text. The digits that pass are those of some byte string, and hashes
and lists of keys are read back from the texts that they are written as.
-/

namespace QuorumTree

namespace Hex

/-- The digits that pass are those that are written for some byte string. -/
theorem bare_eq_ok_iff {text : String} {digits : List Char} :
    bare text = .ok digits ↔
      bareDigits text.toList = digits ∧ ∃ bytes, encodeChars bytes = digits := by
  unfold bare
  dsimp only
  rw [exists_encodeChars_iff]
  split_ifs with hodd hdigits
  · simp only [false_iff]
    rintro ⟨rfl, heven, -⟩
    omega
  · rw [List.all_eq_true] at hdigits
    rw [Except.ok.injEq]
    constructor
    · rintro rfl
      exact ⟨rfl, by omega, hdigits⟩
    · exact And.left
  · rw [List.all_eq_true] at hdigits
    simp only [false_iff]
    rintro ⟨rfl, -, hall⟩
    exact hdigits hall

/-- What is not read is refused for an odd number of digits or for a character that is none. -/
theorem bare_cases (text : String) :
    (∃ bytes, bare text = .ok (encodeChars bytes)) ∨
      bare text = .error (.oddHex text) ∨ bare text = .error (.badHex text) := by
  cases hbare : bare text with
  | ok digits =>
      obtain ⟨-, bytes, rfl⟩ := bare_eq_ok_iff.mp hbare
      exact .inl ⟨bytes, rfl⟩
  | error fault =>
      unfold bare at hbare
      dsimp only at hbare
      split_ifs at hbare <;> cases hbare
      · exact .inr (.inl rfl)
      · exact .inr (.inr rfl)

theorem read_eq_error_iff {text : String} {fault : Fault} :
    read text = .error fault ↔ bare text = .error fault := by
  unfold read
  cases bare text <;> simp [Except.map]

theorem read_eq_ok_iff_bare {text : String} {bytes : Bytes} :
    read text = .ok bytes ↔ bare text = .ok (encodeChars bytes) := by
  constructor
  · intro h
    unfold read at h
    cases hbare : bare text with
    | error fault =>
        rw [hbare] at h
        cases h
    | ok digits =>
        obtain ⟨-, written, rfl⟩ := bare_eq_ok_iff.mp hbare
        rw [hbare] at h
        cases h
        rw [pairBytes_encodeChars]
  · intro h
    rw [read, h]
    exact congrArg Except.ok (pairBytes_encodeChars bytes)

theorem bare_encode (bytes : Bytes) : bare (encode bytes) = .ok (encodeChars bytes) := by
  rw [bare_eq_ok_iff, encode, String.toList_ofList]
  exact ⟨bareDigits_encodeChars bytes, bytes, rfl⟩

theorem read_encode (bytes : Bytes) : read (encode bytes) = .ok bytes :=
  read_eq_ok_iff_bare.mpr (bare_encode bytes)

theorem readHash_encode (hash : Bytes32) : readHash (encode hash.bytes) = .ok hash := by
  rw [readHash, bind_eq_ok_iff]
  refine ⟨hash.bytes, read_encode hash.bytes, ?_⟩
  rw [Bytes32.ofBytes?_bytes]

end Hex

namespace Datum

theorem readHash_text_encode (hash : Bytes32) :
    (Datum.text (Hex.encode hash.bytes)).readHash = .ok hash := by
  rw [readHash, bind_eq_ok_iff]
  exact ⟨_, rfl, Hex.readHash_encode hash⟩

theorem readHex_text (value : String) : (text value).readHex = Hex.read value :=
  pure_bind value Hex.read

theorem toHexDigits_text (value : String) :
    (text value).toHexDigits = (Hex.bare value).map String.ofList := by
  have hbare : (text value).toHexDigits =
      Hex.bare value >>= fun digits => pure (String.ofList digits) := pure_bind value _
  rw [hbare]
  cases Hex.bare value <;> rfl

theorem readHex_text_encode (bytes : Bytes) : (text (Hex.encode bytes)).readHex = .ok bytes := by
  rw [readHex_text, Hex.read_encode]

theorem readSpacedHex_text_encode (bytes : Bytes) :
    (text (Hex.encode bytes)).readSpacedHex = .ok bytes := by
  rw [readSpacedHex, Hex.decodeSpaced_encode]
  rfl

theorem readHex_hex (key : PublicKey) : (Datum.text key.hex).readHex = .ok key.bytes :=
  readHex_text_encode key.bytes

theorem mapM_readHash (hashes : List Bytes32) :
    (hashes.map fun hash => Datum.text (Hex.encode hash.bytes)).mapM readHash = .ok hashes := by
  rw [mapM_eq_ok_iff, List.forall₂_map_left_iff, List.forall₂_same]
  intro hash _
  exact readHash_text_encode hash

theorem readKeys_hex (keys : List PublicKey) :
    (Datum.list (keys.map (.text ·.hex))).readKeys = .ok keys := by
  rw [readKeys, bind_eq_ok_iff]
  refine ⟨keys.map (.text ·.hex), rfl, ?_⟩
  rw [mapM_eq_ok_iff, List.forall₂_map_left_iff, List.forall₂_same]
  intro key _
  rw [bind_eq_ok_iff]
  exact ⟨key.bytes, readHex_hex key, key.ofBytes_bytes⟩

end Datum

namespace PublicKey

theorem ofHexDatum_hex (key : PublicKey) : ofHexDatum (.text key.hex) = .ok key :=
  key.ofHex_hex

end PublicKey

end QuorumTree
