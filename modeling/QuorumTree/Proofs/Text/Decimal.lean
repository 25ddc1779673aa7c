import Mathlib.Data.List.TakeWhile
import QuorumTree.Environment
import QuorumTree.Proofs.Text.Blank

/-!
Whole numbers in decimal. A number that is written out is read back, as long as it has no more
digits than a number may have.
-/

namespace QuorumTree

namespace Text

variable {c : Char} {cs : List Char}

theorem toNat_of_isDigit (h : c.isDigit = true) : 0x30 ≤ c.toNat ∧ c.toNat ≤ 0x39 := by
  simp only [Char.isDigit, Bool.and_eq_true, decide_eq_true_eq] at h
  exact ⟨UInt32.le_iff_toNat_le.mp h.1, UInt32.le_iff_toNat_le.mp h.2⟩

theorem decimalValue?_of_isDigit (h : c.isDigit = true) :
    decimalValue? c = some (c.toNat - 0x30) := by
  obtain ⟨hlow, hhigh⟩ := toNat_of_isDigit h
  have hascii : c.toNat < 0x80 := by omega
  have hrange : '0' ≤ c ∧ c ≤ '9' :=
    ⟨UInt32.le_iff_toNat_le.mpr hlow, UInt32.le_iff_toNat_le.mpr hhigh⟩
  rw [decimalValue?, if_pos hascii, if_pos hrange]

theorem isDigitMark_of_isDigit (h : c.isDigit = true) : isDigitMark c = true := by
  rw [isDigitMark, decimalValue?_of_isDigit h, Option.isSome_some, Bool.or_true]

theorem isDigit_of_isDigit (h : c.isDigit = true) : isDigit c = true := by
  rw [isDigit, decimalValue?_of_isDigit h, Option.isSome_some, Bool.true_or]

theorem isBlank_of_isDigit (h : c.isDigit = true) : isBlank c = false := by
  obtain ⟨hlow, hhigh⟩ := toNat_of_isDigit h
  simp only [isBlank, isNumberBlank, isAsciiBlank, isWideBlank, Bool.or_eq_false_iff,
    Bool.and_eq_false_iff, beq_eq_false_iff_ne, decide_eq_false_iff_not]
  omega

theorem isNumberBlank_of_isDigit (h : c.isDigit = true) : isNumberBlank c = false :=
  (Bool.or_eq_false_iff.mp (isBlank_of_isDigit h)).1

theorem digitValues?_of_isDigit (hne : cs ≠ []) (h : ∀ c ∈ cs, c.isDigit = true) :
    digitValues? cs = some (cs.map fun c => c.toNat - 0x30) := by
  fun_induction digitValues? cs with
  | case1 => exact absurd rfl hne
  | case2 c =>
      rw [decimalValue?_of_isDigit (h c List.mem_cons_self)]
      rfl
  | case3 c rest ih =>
      have hmark := h '_' (List.mem_cons_of_mem _ List.mem_cons_self)
      exact absurd hmark (by decide)
  | case4 c rest hrest hmark ih =>
      rw [decimalValue?_of_isDigit (h c List.mem_cons_self),
        ih hrest fun d hd => h d (List.mem_cons_of_mem _ hd)]
      rfl

theorem splitSign_of_isDigit (h : ∀ c ∈ cs, c.isDigit = true) : splitSign cs = (false, cs) := by
  cases cs with
  | nil => rfl
  | cons c cs =>
      have hdigit := h c List.mem_cons_self
      unfold splitSign
      split
      · next heq => cases heq; exact absurd hdigit (by decide)
      · next heq => cases heq; exact absurd hdigit (by decide)
      · rfl

theorem ofDigits_toDigits (n : Nat) :
    ofDigits ((Nat.toDigits 10 n).map fun c => c.toNat - 0x30) = n := by
  rw [ofDigits, List.foldl_map]
  exact Nat.ofDigitChars_toDigits (by decide) (by decide)

theorem toList_toString (n : Nat) : (toString n).toList = Nat.toDigits 10 n := by
  rw [Nat.toString_eq_ofList_toDigits, String.toList_ofList]

theorem isDigit_of_mem_toDigits {n : Nat} (h : c ∈ Nat.toDigits 10 n) : c.isDigit = true :=
  Nat.isDigit_of_mem_toDigits (by decide) (by decide) h

/-- Nothing but digits is read as the number of these digits. -/
theorem of_isDigit (text : String) (hne : text.toList ≠ [])
    (h : ∀ c ∈ text.toList, c.isDigit = true) (hlength : text.toList.length ≤ maxDigits) :
    IntegerReading.of text = .number (ofDigits (text.toList.map fun c => c.toNat - 0x30)) := by
  have hmark : ∀ c ∈ text.toList, isDigitMark c = true :=
    fun c hc => isDigitMark_of_isDigit (h c hc)
  have hstrip : stripChars isNumberBlank text.toList = text.toList :=
    stripChars_eq_self fun c hc => isNumberBlank_of_isDigit (h c hc)
  rw [IntegerReading.of, hstrip, splitSign_of_isDigit h]
  dsimp only
  rw [List.takeWhile_eq_self_iff.mpr hmark, List.dropWhile_eq_nil_iff.mpr hmark,
    digitValues?_of_isDigit hne h]
  dsimp only
  rw [List.length_map, if_neg (Nat.not_lt.mpr hlength)]
  rfl

theorem of_toString {n : Nat} (h : n < 10 ^ maxDigits) :
    IntegerReading.of (toString n) = .number n := by
  have hread := of_isDigit (toString n)
  rw [toList_toString, ofDigits_toDigits] at hread
  refine hread Nat.toDigits_ne_nil (fun c => isDigit_of_mem_toDigits) ?_
  exact (Nat.length_toDigits_le_iff (by decide) (by decide)).mpr h

end Text

theorem readInteger_toString {n : Nat} (h : n < 10 ^ Text.maxDigits) :
    readInteger (toString n) = .ok n := by
  rw [readInteger, Text.of_toString h]

end QuorumTree
