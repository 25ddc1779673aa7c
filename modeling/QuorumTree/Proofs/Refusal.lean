import QuorumTree.Fault
import QuorumTree.Proofs.Traversal

/-!
What a step can be refused for. Where each step of a sequence is refused only for reasons of some
kind, so is the whole.
-/

namespace QuorumTree

variable {α β : Type} {P Q : Fault → Prop}

/-- Every reason for which it is refused, if it is, has the property. -/
def RefusesOnly (P : Fault → Prop) (answer : Except Fault α) : Prop :=
  ∀ fault, answer = .error fault → P fault

namespace RefusesOnly

theorem ok (value : α) : RefusesOnly P (.ok value) := by
  intro fault h
  cases h

theorem error {fault : Fault} (h : P fault) : RefusesOnly P (.error fault : Except Fault α) := by
  rintro _ ⟨⟩
  exact h

/-- Where numbers are told, that one of them is too long is one more reason. -/
theorem telling {numbers : List Number} {fault : Fault} (h : P fault) (hlong : P .numberTooLong) :
    RefusesOnly P (.error (Fault.telling numbers fault) : Except Fault α) :=
  .error (Fault.of_telling h hlong)

theorem mono {answer : Except Fault α} (h : RefusesOnly P answer)
    (hPQ : ∀ fault, P fault → Q fault) : RefusesOnly Q answer :=
  fun fault hfault => hPQ fault (h fault hfault)

/-- Whatever the first step answers, the next one is refused only for such reasons. -/
theorem bind_of_answer {first : Except Fault α} {next : α → Except Fault β}
    (h : RefusesOnly P first) (hnext : ∀ value, first = .ok value → RefusesOnly P (next value)) :
    RefusesOnly P (first >>= next) := by
  intro fault hfault
  rcases bind_eq_error_iff.mp hfault with hfirst | ⟨found, hfound, hrest⟩
  · exact h fault hfirst
  · exact hnext found hfound fault hrest

theorem bind {first : Except Fault α} {next : α → Except Fault β} (h : RefusesOnly P first)
    (hnext : ∀ value, RefusesOnly P (next value)) : RefusesOnly P (first >>= next) :=
  h.bind_of_answer fun value _ => hnext value

/-- What comes after a step that succeeds is all that may be refused. -/
theorem bind_of_ok {first : Except Fault α} {found : α} (h : first = .ok found)
    {next : α → Except Fault β} (hnext : RefusesOnly P (next found)) :
    RefusesOnly P (first >>= next) := by
  rw [h]
  exact hnext

theorem map {answer : Except Fault α} (h : RefusesOnly P answer) (change : α → β) :
    RefusesOnly P (answer.map change) := by
  intro fault hfault
  cases answer with
  | ok value => cases hfault
  | error refused =>
      cases hfault
      exact h fault rfl

theorem mapM {items : List α} {step : α → Except Fault β}
    (h : ∀ item ∈ items, RefusesOnly P (step item)) : RefusesOnly P (items.mapM step) := by
  intro fault hfault
  obtain ⟨item, hitem, hrefused⟩ := exists_of_mapM_eq_error hfault
  exact h item hitem fault hrefused

theorem forM {items : List α} {step : α → Except Fault Unit}
    (h : ∀ item ∈ items, RefusesOnly P (step item)) : RefusesOnly P (items.forM step) := by
  intro fault hfault
  obtain ⟨item, hitem, hrefused⟩ := exists_of_forM_eq_error hfault
  exact h item hitem fault hrefused

theorem ne_error {answer : Except Fault α} (h : RefusesOnly P answer) {fault : Fault}
    (hfault : ¬ P fault) : answer ≠ .error fault :=
  fun hanswer => hfault (h fault hanswer)

end RefusesOnly

/-- If it is refused, then as callers expect. -/
abbrev OnlyExpected {α : Type} (answer : Except Fault α) : Prop :=
  RefusesOnly (·.kind.isExpected = true) answer

theorem OnlyExpected.absurd {α : Type} {answer : Except Fault α} (h : OnlyExpected answer)
    {fault : Fault} (hfault : fault.kind.isExpected = false) : answer ≠ .error fault :=
  h.ne_error (by rw [hfault]; exact Bool.false_ne_true)

end QuorumTree
