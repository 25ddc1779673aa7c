import QuorumTree.Command.Run
import QuorumTree.Proofs.Text.Blank
import QuorumTree.Proofs.Text.Decimal
import QuorumTree.Proofs.Traversal

/-!
Signers by index. A list of indices may be typed with blanks around each and with empty parts
between the commas; it is read as the indices in the order in which they stand.
-/

namespace QuorumTree

/-- A part of a text between commas that spells one index in decimal, or none, with blanks around
it. -/
inductive SpellsPart : List Char → List Nat → Prop
  | blank (blanks : List Char) : (∀ c ∈ blanks, Text.isBlank c = true) → SpellsPart blanks []
  | index (before : List Char) (index : Nat) (after : List Char) :
      (∀ c ∈ before, Text.isBlank c = true) → (∀ c ∈ after, Text.isBlank c = true) →
      SpellsPart (before ++ (toString index).toList ++ after) [index]

/-- A text that spells indices, one part after another with commas between them. -/
inductive SpellsIndices : List Char → List Nat → Prop
  | last {part : List Char} {found : List Nat} : SpellsPart part found → SpellsIndices part found
  | next {part rest : List Char} {found others : List Nat} : SpellsPart part found →
      SpellsIndices rest others → SpellsIndices (part ++ ',' :: rest) (found ++ others)

/-- Neither a blank nor a digit is a comma. -/
theorem SpellsPart.not_mem {part : List Char} {found : List Nat} (h : SpellsPart part found) :
    ',' ∉ part := by
  have hblanks {blanks : List Char} (h : ∀ c ∈ blanks, Text.isBlank c = true) : ',' ∉ blanks :=
    fun hc => absurd (h _ hc) (by decide)
  cases h with
  | blank _ h => exact hblanks h
  | index _ index _ hbefore hafter =>
      have hdigits : ',' ∉ (toString index).toList := by
        rw [Text.toList_toString]
        exact fun hc => absurd (Text.isDigit_of_mem_toDigits hc) (by decide)
      simp only [List.mem_append, not_or]
      exact ⟨⟨hblanks hbefore, hdigits⟩, hblanks hafter⟩

/-- The parts of a text, less blanks and blank parts. -/
def strippedParts (cs : List Char) : List (List Char) :=
  ((Text.splitChars ',' cs).map (Text.stripChars Text.isBlank)).filter (!·.isEmpty)

theorem SpellsPart.filter_strip {part : List Char} {found : List Nat} (h : SpellsPart part found) :
    [Text.stripChars Text.isBlank part].filter (!·.isEmpty) =
      found.map fun index => (toString index).toList := by
  cases h with
  | blank _ h => rw [Text.stripChars_of_all h]; rfl
  | index _ index _ hbefore hafter =>
      have hdigits : ∀ c ∈ (toString index).toList, Text.isBlank c = false := by
        rw [Text.toList_toString]
        exact fun c hc => Text.isBlank_of_isDigit (Text.isDigit_of_mem_toDigits hc)
      rw [Text.stripChars_append hbefore hafter hdigits]
      simp

theorem SpellsIndices.strippedParts_eq {cs : List Char} {indices : List Nat}
    (h : SpellsIndices cs indices) :
    strippedParts cs = indices.map fun index => (toString index).toList := by
  induction h with
  | last h => rw [strippedParts, Text.splitChars_of_not_mem h.not_mem, List.map_singleton,
      h.filter_strip]
  | next h _ ih =>
      rw [strippedParts, Text.splitChars_append h.not_mem, List.map_cons, ← List.singleton_append,
        List.filter_append, h.filter_strip, List.map_append]
      exact congrArg _ ih

theorem filter_strip_parts (text : String) :
    ((Text.parts ',' text).map Text.strip).filter (!·.isEmpty) =
      (strippedParts text.toList).map String.ofList := by
  have hstrip : Text.strip ∘ String.ofList = String.ofList ∘ Text.stripChars Text.isBlank := by
    funext cs
    rw [Function.comp_apply, Text.strip, String.toList_ofList]
    rfl
  have hempty : (!·.isEmpty) ∘ String.ofList = fun cs : List Char => !cs.isEmpty := by
    funext cs
    rw [Function.comp_apply, Bool.not_inj_iff, Bool.eq_iff_iff, String.isEmpty_iff,
      List.isEmpty_iff, String.ofList_eq_empty_iff]
  rw [strippedParts, Text.parts, List.map_map, hstrip, ← List.map_map, List.filter_map, hempty]

namespace Command

section Indices

variable {text : String} {indices : List Nat} (hne : indices ≠ [])
  (hbound : ∀ index ∈ indices, index < 10 ^ Text.maxDigits)

include hne hbound

theorem readSigners_of_parts
    (hparts : ((Text.parts ',' text).map Text.strip).filter (!·.isEmpty) = indices.map toString) :
    readSigners text = .ok (indices.map fun index : Nat => .int index) := by
  have hdigits : (indices.map toString).all (fun part => part.toList.all Text.isDigit) = true := by
    rw [List.all_map, List.all_eq_true]
    intro index _
    rw [Function.comp_apply, Text.toList_toString, List.all_eq_true]
    exact fun c hc => Text.isDigit_of_isDigit (Text.isDigit_of_mem_toDigits hc)
  have hnonempty : (indices.map toString).isEmpty = false := by
    rw [List.isEmpty_map]
    exact List.isEmpty_eq_false_iff.mpr hne
  rw [readSigners, hparts, hdigits, hnonempty, Bool.not_false, Bool.and_true, if_pos rfl,
    mapM_eq_ok_iff, List.forall₂_map_left_iff, List.forall₂_map_right_iff, List.forall₂_same]
  intro index hindex
  rw [readInteger_toString (hbound index hindex)]
  rfl

/-- Indices that a text spells are read from it. -/
theorem readSigners_eq_ok (h : SpellsIndices text.toList indices) :
    readSigners text = .ok (indices.map fun index : Nat => .int index) := by
  refine readSigners_of_parts hne hbound ?_
  rw [filter_strip_parts, h.strippedParts_eq, List.map_map]
  exact List.map_congr_left fun index _ => String.ofList_toList

end Indices

end Command

end QuorumTree
