import QuorumTree.Proofs.Traversal

/-!
Runs over a state. A computation that may be refused, and that leaves a state either way, is run
step by step: each goes on from the answer and the state of the one before.
-/

namespace QuorumTree

variable {ε σ α β γ : Type} {action : ExceptT ε (StateM σ) α} {next : α → ExceptT ε (StateM σ) β}
  {state after : σ}

/-- What comes next runs on what the action answers, on the state that it leaves. -/
theorem run_bind (action : ExceptT ε (StateM σ) α) (next : α → ExceptT ε (StateM σ) β)
    (state : σ) :
    (action >>= next).run state =
      ExceptT.bindCont next (action.run state).1 (action.run state).2 := rfl

theorem run_bind_of_ok {answer : α} (h : action.run state = (.ok answer, after)) :
    (action >>= next).run state = (next answer).run after := by
  rw [run_bind, h]
  rfl

theorem run_bind_of_error {refusal : ε} (h : action.run state = (.error refusal, after)) :
    (action >>= next).run state = (.error refusal, after) := by
  rw [run_bind, h]
  rfl

theorem run_bind_eq_ok_iff {answer : β} :
    (action >>= next).run state = (.ok answer, after) ↔
      ∃ found between, action.run state = (.ok found, between) ∧
        (next found).run between = (.ok answer, after) := by
  rw [run_bind]
  rcases action.run state with ⟨found | found, between⟩
  · constructor
    · intro h
      cases h
    · rintro ⟨_, _, h, -⟩
      cases h
  · constructor
    · intro h
      exact ⟨found, between, rfl, h⟩
    · rintro ⟨_, _, h, hnext⟩
      cases h
      exact hnext

theorem run_lift_eq_ok_iff {answer : Except ε α} {value : α} :
    (liftM answer : ExceptT ε (StateM σ) α).run state = (.ok value, after) ↔
      answer = .ok value ∧ state = after := by
  change (answer, state) = (.ok value, after) ↔ _
  rw [Prod.mk.injEq]

/-- Steps that leave the state alone may be taken one by one. -/
theorem lift_bind_bind (first : Except ε α) (next : α → Except ε β)
    (rest : β → ExceptT ε (StateM σ) γ) :
    (liftM (first >>= next) >>= rest : ExceptT ε (StateM σ) γ) =
      liftM first >>= fun found => liftM (next found) >>= rest := by
  cases first <;> rfl

theorem run_bind_eq_error_iff {refusal : ε} :
    (action >>= next).run state = (.error refusal, after) ↔
      action.run state = (.error refusal, after) ∨
        ∃ found between, action.run state = (.ok found, between) ∧
          (next found).run between = (.error refusal, after) := by
  rw [run_bind]
  rcases action.run state with ⟨found | found, between⟩
  · constructor
    · intro h
      cases h
      exact .inl rfl
    · rintro (h | ⟨_, _, h, -⟩)
      · cases h
        rfl
      · cases h
  · constructor
    · intro h
      exact .inr ⟨found, between, rfl, h⟩
    · rintro (h | ⟨_, _, h, hnext⟩)
      · cases h
      · cases h
        exact hnext

theorem run_modify_bind {change : σ → σ} {next : Unit → ExceptT ε (StateM σ) α} :
    ((modify change : ExceptT ε (StateM σ) Unit) >>= next).run state =
      (next ()).run (change state) := rfl

theorem run_modifyGet_bind {read : σ → β × σ} {next : β → ExceptT ε (StateM σ) α} :
    ((modifyGet read : ExceptT ε (StateM σ) β) >>= next).run state =
      (next (read state).1).run (read state).2 := rfl

theorem run_map_eq_ok_iff {change : α → β} {answer : β} :
    (change <$> action).run state = (.ok answer, after) ↔
      ∃ value, action.run state = (.ok value, after) ∧ change value = answer := by
  rw [← bind_pure_comp, run_bind_eq_ok_iff]
  constructor
  · rintro ⟨value, between, hrun, hvalue⟩
    cases hvalue
    exact ⟨value, hrun, rfl⟩
  · rintro ⟨value, hrun, rfl⟩
    exact ⟨value, after, hrun, rfl⟩

theorem run_map {change : α → β} {value : α}
    (h : action.run state = (.ok value, after)) :
    (change <$> action).run state = (.ok (change value), after) :=
  run_map_eq_ok_iff.mpr ⟨value, h, rfl⟩

end QuorumTree
