import Mathlib.Data.List.Forall2
import QuorumTree.Proofs.Text.Blank
import QuorumTree.Proofs.Text.Hex
import QuorumTree.Proofs.Text.Lower

/-!
What hexadecimal text looks like. The texts of a byte string have blanks around, a marker or none,
and two digits of either case for each byte. Without blanks, in lower case and without the marker
they are all the text that is written for it, and no other text comes to that.
-/

namespace QuorumTree.Hex

/-- A character that writes a number below sixteen, in either case. -/
def IsDigitOf (n : Nat) (c : Char) : Prop :=
  "0123456789abcdef".toList[n]? = some c ∨ "0123456789ABCDEF".toList[n]? = some c

/-- The digits of a byte string, two for each byte. -/
inductive Spells : Bytes → List Char → Prop
  | nil : Spells [] []
  | cons {b : UInt8} {bytes : Bytes} {high low : Char} {digits : List Char} :
      IsDigitOf (b.toNat / 16) high → IsDigitOf (b.toNat % 16) low → Spells bytes digits →
      Spells (b :: bytes) (high :: low :: digits)

/-- The digits of a byte string, behind a marker or not. -/
inductive IsBareText (bytes : Bytes) : List Char → Prop
  | plain {digits : List Char} : Spells bytes digits → IsBareText bytes digits
  | marked {x : Char} {digits : List Char} : x = 'x' ∨ x = 'X' → Spells bytes digits →
      IsBareText bytes ('0' :: x :: digits)

/-- The texts of a byte string, with any blanks around. -/
def IsTextOf (bytes : Bytes) (text : String) : Prop :=
  ∃ before bare after, before ++ bare ++ after = text.toList ∧ IsBareText bytes bare ∧
    (∀ c ∈ before, Text.isBlank c = true) ∧ ∀ c ∈ after, Text.isBlank c = true

variable {bytes : Bytes} {c d : Char} {cs : List Char}

/-! ### Characters that reading looks for -/

/-- A small digit or the letter of the marker. -/
def IsMark (c : Char) : Prop :=
  isLowerDigit c = true ∨ c = 'x'

theorem isMark_iff : IsMark c ↔ 0x30 ≤ c.toNat ∧ c.toNat ≤ 0x39 ∨
    0x61 ≤ c.toNat ∧ c.toNat ≤ 0x66 ∨ c.toNat = 0x78 := by
  have hx : c = 'x' ↔ c.toNat = 0x78 := Char.toNat_inj.symm
  simp only [IsMark, isLowerDigit, Bool.or_eq_true, Bool.and_eq_true, decide_eq_true_eq, hx,
    or_assoc]

theorem isMark_of_mem_encodeChars (h : c ∈ encodeChars bytes) : IsMark c :=
  .inl ((exists_encodeChars_iff.mp ⟨bytes, rfl⟩).2 c h)

/-- A letter in either case. -/
def EitherCase (letter c : Char) : Prop :=
  c = letter ∨ c = letter.toUpper

theorem lowerChar_append_eq_cons_iff (hd : IsMark d) {rest letters : List Char} :
    lowerChar c ++ rest = d :: letters ↔ EitherCase d c ∧ rest = letters := by
  rw [isMark_iff] at hd
  rw [EitherCase, ← Text.toLower_eq_iff (by omega), lowerChar]
  split_ifs with hdotted
  · -- What the dotted capital becomes begins with a letter that is not looked for.
    have hletter : 'i' ≠ d := by
      rintro rfl
      simp at hd
    have hsmall : c.toLower ≠ d := by
      rintro rfl
      rw [Text.toLower_of_not_ascii (by omega)] at hd
      omega
    simp [hletter, hsmall]
  · rw [List.singleton_append, List.cons.injEq]

theorem flatMap_lowerChar_eq_iff {letters : List Char} (h : ∀ d ∈ letters, IsMark d) :
    cs.flatMap lowerChar = letters ↔ List.Forall₂ EitherCase letters cs := by
  induction cs generalizing letters with
  | nil => rw [List.flatMap_nil, List.forall₂_nil_right_iff, eq_comm]
  | cons c cs ih =>
      cases letters with
      | nil =>
          have hne : lowerChar c ≠ [] := by
            unfold lowerChar
            split_ifs <;> simp
          simp [hne]
      | cons d letters =>
          obtain ⟨hd, hletters⟩ := List.forall_mem_cons.mp h
          rw [List.flatMap_cons, lowerChar_append_eq_cons_iff hd, ih hletters,
            List.forall₂_cons]

/-! ### Texts -/

theorem isDigitOf_iff {n : Nat} (h : n < 16) : IsDigitOf n c ↔ EitherCase (digitChar n) c := by
  have hall : ∀ n : Fin 16, "0123456789abcdef".toList[n.val]? = some (digitChar n) ∧
      "0123456789ABCDEF".toList[n.val]? = some (digitChar n).toUpper := by decide
  obtain ⟨hsmall, hcapital⟩ := hall ⟨n, h⟩
  rw [IsDigitOf, hsmall, hcapital, Option.some.injEq, Option.some.injEq, EitherCase, eq_comm,
    eq_comm (a := c) (b := (digitChar n).toUpper)]

theorem spells_iff : Spells bytes cs ↔ List.Forall₂ EitherCase (encodeChars bytes) cs := by
  constructor
  · intro h
    induction h with
    | nil => exact .nil
    | cons hhigh hlow _ ih =>
        exact .cons ((isDigitOf_iff (high_lt _)).mp hhigh)
          (.cons ((isDigitOf_iff (low_lt _)).mp hlow) ih)
  · intro h
    induction bytes generalizing cs with
    | nil =>
        cases h
        exact .nil
    | cons b bytes ih =>
        rw [encodeChars_cons] at h
        obtain _ | ⟨hhigh, _ | ⟨hlow, hrest⟩⟩ := h
        exact .cons ((isDigitOf_iff (high_lt b)).mpr hhigh) ((isDigitOf_iff (low_lt b)).mpr hlow)
          (ih hrest)

/-- What is written for a byte string are its digits. -/
theorem spells_encodeChars (bytes : Bytes) : Spells bytes (encodeChars bytes) := by
  rw [spells_iff, List.forall₂_same]
  exact fun _ _ => .inl rfl

theorem isBareText_iff : IsBareText bytes cs ↔
    List.Forall₂ EitherCase (encodeChars bytes) cs ∨
      List.Forall₂ EitherCase ('0' :: 'x' :: encodeChars bytes) cs := by
  constructor
  · rintro (h | ⟨hx, h⟩)
    · exact .inl (spells_iff.mp h)
    · exact .inr (.cons (.inl rfl) (.cons hx (spells_iff.mp h)))
  · rintro (h | h)
    · exact .plain (spells_iff.mpr h)
    · obtain _ | ⟨hzero, _ | ⟨hx, hrest⟩⟩ := h
      obtain rfl : _ = '0' := hzero.elim id id
      exact .marked hx (spells_iff.mpr hrest)

theorem IsDigitOf.isBlank_eq_false {n : Nat} (hn : n < 16) (h : IsDigitOf n c) :
    Text.isBlank c = false := by
  have hall : ∀ n : Fin 16, Text.isBlank (digitChar n) = false ∧
      Text.isBlank (digitChar n).toUpper = false := by decide
  obtain ⟨hsmall, hcapital⟩ := hall ⟨n, hn⟩
  rcases (isDigitOf_iff hn).mp h with rfl | rfl
  · exact hsmall
  · exact hcapital

theorem Spells.isBlank_eq_false (h : Spells bytes cs) : ∀ c ∈ cs, Text.isBlank c = false := by
  induction h with
  | nil => exact List.forall_mem_nil _
  | cons hhigh hlow _ ih =>
      exact List.forall_mem_cons.mpr ⟨hhigh.isBlank_eq_false (high_lt _),
        List.forall_mem_cons.mpr ⟨hlow.isBlank_eq_false (low_lt _), ih⟩⟩

theorem IsBareText.isBlank_eq_false (h : IsBareText bytes cs) :
    ∀ c ∈ cs, Text.isBlank c = false := by
  cases h with
  | plain h => exact h.isBlank_eq_false
  | @marked x _ hx h =>
      have hletter : Text.isBlank x = false := by
        rcases hx with rfl | rfl <;> decide
      exact List.forall_mem_cons.mpr ⟨by decide, List.forall_mem_cons.mpr ⟨hletter,
        h.isBlank_eq_false⟩⟩

/-- What is left of a text without the blanks around decides whose text it is. -/
theorem isTextOf_iff {text : String} :
    IsTextOf bytes text ↔ IsBareText bytes (Text.stripChars Text.isBlank text.toList) := by
  constructor
  · rintro ⟨before, bare, after, htext, hbare, hbefore, hafter⟩
    rwa [← htext, Text.stripChars_append hbefore hafter hbare.isBlank_eq_false]
  · intro h
    obtain ⟨before, after, htext, hbefore, hafter⟩ :=
      Text.exists_append_stripChars Text.isBlank text.toList
    exact ⟨before, _, after, htext, h, hbefore, hafter⟩

/-! ### The digits that are left -/

theorem dropMarker_eq_encodeChars_iff :
    dropMarker cs = encodeChars bytes ↔
      cs = encodeChars bytes ∨ cs = '0' :: 'x' :: encodeChars bytes := by
  constructor
  · intro h
    unfold dropMarker at h
    split at h
    · exact .inr (by rw [h])
    · exact .inl h
  · rintro (rfl | rfl)
    · exact dropMarker_encodeChars bytes
    · rfl

theorem bareDigits_eq_encodeChars_iff :
    bareDigits cs = encodeChars bytes ↔ IsBareText bytes (Text.stripChars Text.isBlank cs) := by
  have hdigits : ∀ d ∈ encodeChars bytes, IsMark d := fun d => isMark_of_mem_encodeChars
  have hmarked : ∀ d ∈ '0' :: 'x' :: encodeChars bytes, IsMark d :=
    List.forall_mem_cons.mpr ⟨.inl rfl, List.forall_mem_cons.mpr ⟨.inr rfl, hdigits⟩⟩
  rw [bareDigits, dropMarker_eq_encodeChars_iff, flatMap_lowerChar_eq_iff hdigits,
    flatMap_lowerChar_eq_iff hmarked, isBareText_iff]

/-- A written text has nothing that reading takes away: no blanks, no capitals and no marker. -/
theorem bareDigits_encodeChars (bytes : Bytes) :
    bareDigits (encodeChars bytes) = encodeChars bytes := by
  have hspells := spells_encodeChars bytes
  rw [bareDigits_eq_encodeChars_iff, Text.stripChars_eq_self hspells.isBlank_eq_false]
  exact .plain hspells

end QuorumTree.Hex
