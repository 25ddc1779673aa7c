import Mathlib.Data.List.DropRight
import QuorumTree.Text.Blank

/-!
Taking blanks off both ends of a text. What is taken off stands before and behind what is left, and
a text without blanks is what is left of it with any blanks around.
-/

namespace QuorumTree.Text

variable {drop : Char → Bool} {cs : List Char}

theorem stripChars_of_all (h : ∀ c ∈ cs, drop c = true) : stripChars drop cs = [] := by
  rw [stripChars, List.dropWhile_eq_nil_iff.mpr h]
  rfl

/-- What stands around a text that has nothing to take off is taken off. -/
theorem stripChars_append {before after : List Char} (hbefore : ∀ c ∈ before, drop c = true)
    (hafter : ∀ c ∈ after, drop c = true) (hcs : ∀ c ∈ cs, drop c = false) :
    stripChars drop (before ++ cs ++ after) = cs := by
  rcases eq_or_ne cs [] with rfl | hne
  · rw [List.append_nil]
    exact stripChars_of_all fun c hc => (List.mem_append.mp hc).elim (hbefore c) (hafter c)
  -- Each end begins with what is taken off and goes on with a character that is not.
  have hfront {front : List Char} (hfront : ∀ c ∈ front, drop c = true) {others : List Char}
      (hne : others ≠ []) (hothers : ∀ c ∈ others, drop c = false) (rest : List Char) :
      (front ++ (others ++ rest)).dropWhile drop = others ++ rest := by
    obtain ⟨c, others, rfl⟩ := List.exists_cons_of_ne_nil hne
    rw [List.dropWhile_append_of_pos hfront, List.cons_append,
      List.dropWhile_cons_of_neg (by simp [hothers c])]
  have hreversed : ∀ c ∈ after.reverse, drop c = true := fun c hc =>
    hafter c (List.mem_reverse.mp hc)
  have hback := hfront hreversed (List.reverse_ne_nil_iff.mpr hne)
    (fun c hc => hcs c (List.mem_reverse.mp hc)) []
  rw [List.append_nil] at hback
  rw [stripChars, List.append_assoc, hfront hbefore hne hcs, List.reverse_append, hback,
    List.reverse_reverse]

theorem stripChars_eq_self (h : ∀ c ∈ cs, drop c = false) : stripChars drop cs = cs := by
  have hstrip := stripChars_append (List.forall_mem_nil (drop · = true))
    (List.forall_mem_nil (drop · = true)) h
  rwa [List.nil_append, List.append_nil] at hstrip

theorem exists_append_stripChars (drop : Char → Bool) (cs : List Char) :
    ∃ before after, before ++ stripChars drop cs ++ after = cs ∧
      (∀ c ∈ before, drop c = true) ∧ ∀ c ∈ after, drop c = true := by
  refine ⟨cs.takeWhile drop, (cs.dropWhile drop).rtakeWhile drop, ?_,
    fun c => List.mem_takeWhile_imp, fun c => List.mem_rtakeWhile_imp⟩
  have hback : stripChars drop cs ++ (cs.dropWhile drop).rtakeWhile drop = cs.dropWhile drop :=
    List.rdropWhile_append_rtakeWhile
  rw [List.append_assoc, hback, List.takeWhile_append_dropWhile]

end QuorumTree.Text
