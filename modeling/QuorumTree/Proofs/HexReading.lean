import QuorumTree.Proofs.HexText

/-!
Reading hexadecimal text. A text is read as a byte string exactly when it is one of the texts of
that byte string, and everything else is refused as an invalid value. The lower case is that of the
whole alphabet, which shows in the answer only where a character is one that reading looks for, or
becomes two.
-/

namespace QuorumTree

namespace Hex

variable {bytes : Bytes} {c d : Char} {cs : List Char}

/-- A text is read as a byte string exactly when it is one of its texts. -/
theorem read_eq_ok_iff {text : String} : read text = .ok bytes ↔ IsTextOf bytes text := by
  rw [read_eq_ok_iff_bare, bare_eq_ok_iff, isTextOf_iff, ← bareDigits_eq_encodeChars_iff]
  exact and_iff_left ⟨bytes, rfl⟩

/-! ### The whole alphabet in lower case -/

/-- The digits of a text, with the whole of it in lower case before the marker comes off. -/
def loweredDigits (text : String) : List Char :=
  dropMarker (Text.lower (Text.strip text)).toList

/-- The digits of a text if they pass, counted and looked at in lower case. -/
def bareLowered (text : String) : Except Fault (List Char) :=
  let digits := loweredDigits text
  if digits.length % 2 = 1 then .error (.oddHex text)
  else if digits.all isLowerDigit then .ok digits
  else .error (.badHex text)

/-- One character twice, or two that reading does not look for. -/
def Alike (c d : Char) : Prop :=
  c = d ∨ ¬ IsMark c ∧ ¬ IsMark d

theorem alike_lowerChar (c : Char) : List.Forall₂ Alike (lowerChar c) (Text.lowerChar c) := by
  have hrefl : ∀ cs : List Char, List.Forall₂ Alike cs cs :=
    fun cs => List.forall₂_same.mpr fun _ _ => .inl rfl
  unfold lowerChar
  by_cases hascii : c.toNat < 0x80
  · rw [if_neg (by omega), Text.lowerChar, if_pos hascii]
    exact hrefl _
  · by_cases hdotted : c.toNat = 0x130
    · rw [if_pos hdotted, Text.lowerChar, if_neg hascii, if_pos hdotted]
      exact hrefl _
    · obtain ⟨d, hlower, hd⟩ := Text.exists_lowerChar_eq (by omega) hdotted
      rw [if_neg hdotted, Text.toLower_of_not_ascii (by omega), hlower]
      refine .cons (.inr ?_) .nil
      rw [isMark_iff, isMark_iff]
      omega

/-- Of two texts that are alike, both are the one that is looked for or neither is. -/
theorem eq_iff_of_alike {ds marks : List Char} (h : List.Forall₂ Alike cs ds)
    (hmarks : ∀ mark ∈ marks, IsMark mark) : cs = marks ↔ ds = marks := by
  induction h generalizing marks with
  | nil => rfl
  | @cons c d cs ds hfirst _ ih =>
      cases marks with
      | nil => simp
      | cons mark marks =>
          obtain ⟨hmark, hrest⟩ := List.forall_mem_cons.mp hmarks
          have hhead : c = mark ↔ d = mark := by
            rcases hfirst with rfl | ⟨hc, hd⟩
            · rfl
            · exact iff_of_false (fun h => hc (h ▸ hmark)) fun h => hd (h ▸ hmark)
          rw [List.cons.injEq, List.cons.injEq, hhead, ih hrest]

theorem dropMarker_eq (cs : List Char) :
    dropMarker cs = if cs.take 2 = ['0', 'x'] then cs.drop 2 else cs := by
  unfold dropMarker
  split
  · rfl
  · next hmarker =>
    refine (if_neg fun htake => ?_).symm
    have hcs := List.take_append_drop 2 cs
    rw [htake] at hcs
    exact hmarker _ hcs.symm

theorem forall₂_dropMarker {ds : List Char} (h : List.Forall₂ Alike cs ds) :
    List.Forall₂ Alike (dropMarker cs) (dropMarker ds) := by
  have hmarker : cs.take 2 = ['0', 'x'] ↔ ds.take 2 = ['0', 'x'] := by
    refine eq_iff_of_alike (List.forall₂_take 2 h) ?_
    exact List.forall_mem_cons.mpr ⟨.inl rfl, List.forall_mem_singleton.mpr (.inr rfl)⟩
  rw [dropMarker_eq, dropMarker_eq, if_congr hmarker rfl rfl]
  split_ifs
  · exact List.forall₂_drop 2 h
  · exact h

theorem alike_loweredDigits (text : String) :
    List.Forall₂ Alike (bareDigits text.toList) (loweredDigits text) := by
  rw [loweredDigits, Text.lower, Text.strip, String.toList_ofList, String.toList_ofList]
  refine forall₂_dropMarker (List.rel_flatMap (List.forall₂_same.mpr fun _ _ => rfl) ?_)
  rintro c _ rfl
  exact alike_lowerChar c

/-- What the characters that are not looked for become makes no difference to the answer. -/
theorem bare_eq_bareLowered (text : String) : bare text = bareLowered text := by
  have halike := alike_loweredDigits text
  have hmarks {digits : List Char} (h : digits.all isLowerDigit = true) :
      ∀ d ∈ digits, IsMark d := fun d hd => .inl (List.all_eq_true.mp h d hd)
  have hall : (bareDigits text.toList).all isLowerDigit =
      (loweredDigits text).all isLowerDigit := by
    rw [Bool.eq_iff_iff]
    constructor
    · intro h
      rwa [(eq_iff_of_alike halike (hmarks h)).mp rfl]
    · intro h
      rwa [(eq_iff_of_alike halike (hmarks h)).mpr rfl]
  unfold bare bareLowered
  dsimp only
  rw [halike.length_eq, hall]
  split_ifs with _ hdigits
  · rfl
  · rw [(eq_iff_of_alike halike (hmarks hdigits)).mpr rfl]
  · rfl

end Hex

namespace Datum

/-- The digits that are found in a text are those written for the bytes that it is read as. -/
theorem toHexDigits_eq_ok_iff {value digits : String} :
    (text value).toHexDigits = .ok digits ↔
      ∃ bytes, (text value).readHex = .ok bytes ∧ Hex.encode bytes = digits := by
  simp only [toHexDigits_text, readHex_text, Hex.read_eq_ok_iff_bare]
  constructor
  · intro h
    rcases Hex.bare_cases value with ⟨bytes, hbare⟩ | hbare | hbare <;> rw [hbare] at h
    · cases h
      exact ⟨bytes, hbare, rfl⟩
    · cases h
    · cases h
  · rintro ⟨bytes, hbare, rfl⟩
    rw [hbare]
    rfl

/-- Reading is finding the digits and then reading these, which are never refused. -/
theorem readHex_eq_readSpacedHex (value : String) :
    (text value).readHex =
      (text value).toHexDigits >>= fun digits => (text digits).readSpacedHex := by
  rw [readHex_text, toHexDigits_text]
  cases hbare : Hex.bare value with
  | ok digits =>
      obtain ⟨-, bytes, rfl⟩ := Hex.bare_eq_ok_iff.mp hbare
      rw [Hex.read_eq_ok_iff_bare.mpr hbare]
      exact (readSpacedHex_text_encode bytes).symm
  | error fault =>
      rw [Hex.read_eq_error_iff.mpr hbare]
      rfl

/-- What is no text of any byte string is refused as an invalid value, which the refusal shows. -/
theorem readHex_refused {value : String} (h : ∀ bytes, ¬ Hex.IsTextOf bytes value) :
    ∃ fault, (text value).readHex = .error fault ∧ fault.kind = .value ∧
      (fault = .oddHex value ∨ fault = .badHex value) := by
  rw [readHex_text]
  rcases Hex.bare_cases value with ⟨bytes, hbare⟩ | hbare | hbare
  · exact absurd (Hex.read_eq_ok_iff.mp (Hex.read_eq_ok_iff_bare.mpr hbare)) (h bytes)
  · exact ⟨.oddHex value, Hex.read_eq_error_iff.mpr hbare, rfl, .inl rfl⟩
  · exact ⟨.badHex value, Hex.read_eq_error_iff.mpr hbare, rfl, .inr rfl⟩

/-- Hexadecimal text, from texts to bytes and back. A text is read as the byte string whose text it
is, and any other is refused as an invalid value that names it: for an odd number of digits in lower
case, or for a character that is no digit. The digits that pass are always read by the reader of
spaced digits, and pass again unchanged. What is written for a byte string is a text of it, so it is
read back, and it is what is written for any other text of that byte string. -/
theorem hexText_exact :
    (∀ (value : String) (found : Bytes),
      (text value).readHex = .ok found ↔ Hex.IsTextOf found value) ∧
    (∀ value : String, (∀ found, ¬ Hex.IsTextOf found value) →
      ∃ fault, (text value).readHex = .error fault ∧ fault.kind = .value ∧
        (fault = .oddHex value ∨ fault = .badHex value)) ∧
    (∀ value : String,
      (text value).toHexDigits = (Hex.bareLowered value).map String.ofList ∧
      (text value).readHex =
        ((text value).toHexDigits >>= fun digits => (text digits).readSpacedHex) ∧
      ∀ digits, (text value).toHexDigits = .ok digits →
        (text digits).toHexDigits = .ok digits ∧
          ∃ found, (text digits).readSpacedHex = .ok found) ∧
    (∀ given : Bytes, ∃ written, (bytes given).writeHex = .ok written ∧
      Hex.Spells given written.toList ∧ (text written).readHex = .ok given) ∧
    ∀ (value : String) (found : Bytes), (text value).readHex = .ok found →
      ∃ written, (text value).writeHex = .ok written ∧ (bytes found).writeHex = .ok written := by
  refine ⟨fun value found => ?_, fun value => readHex_refused, fun value => ?_, fun given => ?_,
    fun value found hread => ?_⟩
  · rw [readHex_text, Hex.read_eq_ok_iff]
  · refine ⟨by rw [toHexDigits_text, Hex.bare_eq_bareLowered], readHex_eq_readSpacedHex value,
      fun digits hdigits => ?_⟩
    obtain ⟨found, -, rfl⟩ := toHexDigits_eq_ok_iff.mp hdigits
    exact ⟨toHexDigits_eq_ok_iff.mpr ⟨found, readHex_text_encode found, rfl⟩, found,
      readSpacedHex_text_encode found⟩
  · refine ⟨Hex.encode given, rfl, ?_, readHex_text_encode given⟩
    rw [Hex.encode, String.toList_ofList]
    exact Hex.spells_encodeChars given
  · refine ⟨Hex.encode found, ?_, rfl⟩
    rw [writeHex, ← toHexDigits_text]
    exact toHexDigits_eq_ok_iff.mpr ⟨found, hread, rfl⟩

/-- A capital marker with blanks around; and a dotted capital, with which the two characters behind
a marker become three. -/
theorem hexText_exact_marked :
    Hex.IsTextOf [0xab, 0xcd] "\u2003 0XaBcD\n" ∧
      (∃ written, (text "\u2003 0XaBcD\n").writeHex = .ok written ∧
        (bytes [0xab, 0xcd]).writeHex = .ok written) ∧
      ∃ fault, (text "0x\u0130a").readHex = .error fault ∧ fault.kind = .value ∧
        (fault = .oddHex "0x\u0130a" ∨ fault = .badHex "0x\u0130a") := by
  have hread : (text "\u2003 0XaBcD\n").readHex = .ok [0xab, 0xcd] := rfl
  have hrefused : ∀ found, ¬ Hex.IsTextOf found "0x\u0130a" := by
    intro found htext
    cases (hexText_exact.1 "0x\u0130a" found).mpr htext
  exact ⟨(hexText_exact.1 _ _).mp hread, hexText_exact.2.2.2.2 _ _ hread,
    hexText_exact.2.1 _ hrefused⟩

end Datum

end QuorumTree
