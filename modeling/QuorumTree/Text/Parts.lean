/-!
Parts of a text between separators. There is always one part more than there are separators.
-/

namespace QuorumTree.Text

def splitChars (separator : Char) : List Char → List (List Char)
  | [] => [[]]
  | c :: rest =>
    if c = separator then [] :: splitChars separator rest
    else match splitChars separator rest with
      | [] => [[c]]
      | part :: parts => (c :: part) :: parts

theorem splitChars_of_not_mem {separator : Char} {cs : List Char} (h : separator ∉ cs) :
    splitChars separator cs = [cs] := by
  induction cs with
  | nil => rfl
  | cons c cs ih =>
    rw [List.mem_cons, not_or] at h
    obtain ⟨hc, hcs⟩ := h
    rw [splitChars, if_neg (Ne.symm hc), ih hcs]

theorem splitChars_append {separator : Char} {cs : List Char} (h : separator ∉ cs)
    (rest : List Char) :
    splitChars separator (cs ++ separator :: rest) = cs :: splitChars separator rest := by
  induction cs with
  | nil => rw [List.nil_append, splitChars, if_pos rfl]
  | cons c cs ih =>
    rw [List.mem_cons, not_or] at h
    obtain ⟨hc, hcs⟩ := h
    rw [List.cons_append, splitChars, if_neg (Ne.symm hc), ih hcs]

def parts (separator : Char) (text : String) : List String :=
  (splitChars separator text.toList).map String.ofList

end QuorumTree.Text
