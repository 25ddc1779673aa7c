import QuorumTree.Proofs.Aggregation.Quorums

/-!
When something was asked of the primitive. The ledger lists every key list whose aggregate was asked
for, and nothing takes one off the list; so a refusal that leaves the list as it was came before the
first aggregate. Where it is known which aggregates an action is to ask for, it asks for them in
turn, up to the first one that the primitive refuses.
-/

namespace QuorumTree

variable {primitive : Primitive} {α β ι : Type} {fault : Fault}

/-- The list of calls never shrinks, and by the time of this refusal it has grown. -/
structure Action.RefusesLate (fault : Fault) (action : Action α) : Prop where
  le : ∀ ledger : Ledger, ledger.calls.length ≤ (action.run ledger).2.calls.length
  lt : ∀ ledger : Ledger, (action.run ledger).1 = .error fault →
    ledger.calls.length < (action.run ledger).2.calls.length

namespace Action.RefusesLate

theorem lift {answer : Except Fault α} (h : answer ≠ .error fault) :
    (liftM answer : Action α).RefusesLate fault where
  le _ := le_rfl
  lt _ hanswer := absurd hanswer h

theorem pure (value : α) : (Pure.pure value : Action α).RefusesLate fault where
  le _ := le_rfl
  lt _ hanswer := by cases hanswer

theorem bind {action : Action α} {next : α → Action β} (h : action.RefusesLate fault)
    (hnext : ∀ value, (next value).RefusesLate fault) :
    (action >>= next).RefusesLate fault := by
  constructor
  · intro ledger
    have hfirst := h.le ledger
    rw [run_bind]
    generalize action.run ledger = outcome at hfirst ⊢
    obtain ⟨refused | found, between⟩ := outcome
    · exact hfirst
    · exact hfirst.trans ((hnext found).le between)
  · intro ledger hfault
    have hfirst := h.le ledger
    have hlate := h.lt ledger
    rw [run_bind] at hfault ⊢
    generalize action.run ledger = outcome at hfirst hlate hfault ⊢
    obtain ⟨refused | found, between⟩ := outcome
    · cases hfault
      exact hlate rfl
    · exact hfirst.trans_lt ((hnext found).lt between hfault)

theorem modify {change : Ledger → Ledger}
    (hcalls : ∀ ledger, (change ledger).calls = ledger.calls) :
    (modify change : Action Unit).RefusesLate fault where
  le ledger := (congrArg List.length (hcalls ledger)).ge
  lt _ hanswer := by cases hanswer

end Action.RefusesLate

theorem Ledger.calls_get (keys : List PublicKey) (ledger : Ledger) :
    (ledger.get keys).2.calls = ledger.calls := by
  unfold Ledger.get
  split <;> rfl

theorem Ledger.calls_put (keys : List PublicKey) (made : Aggregate) (ledger : Ledger) :
    (ledger.put keys made).2.calls = ledger.calls := by
  unfold Ledger.put
  split <;> rfl

/-- However it ends, aggregating has asked for one more aggregate. -/
theorem calls_aggregate (keys : List PublicKey) (ledger : Ledger) :
    ((aggregate primitive keys).run ledger).2.calls = ledger.calls ++ [keys] := by
  have hget := Ledger.calls_get keys (ledger.call keys)
  obtain ⟨found, -, hrun⟩ | ⟨fault, -, -, hrun⟩ | ⟨made, -, -, hrun⟩ :=
    run_aggregate_cases primitive keys ledger
  · rw [hrun]
    exact hget
  · rw [hrun]
    exact hget
  · rw [hrun]
    exact (Ledger.calls_put keys made _).trans hget

theorem refusesLate_aggregate (keys : List PublicKey) :
    (aggregate primitive keys).RefusesLate fault := by
  have hgrown (ledger : Ledger) :
      ledger.calls.length < ((aggregate primitive keys).run ledger).2.calls.length := by
    rw [calls_aggregate, List.length_append]
    exact Nat.lt_succ_self _
  exact ⟨fun ledger => (hgrown ledger).le, fun ledger _ => hgrown ledger⟩

theorem refusesLate_aggregateCombination {member : ι → Except Fault PublicKey}
    {combination : List ι} (h : combination.mapM member ≠ .error fault) :
    (aggregateCombination primitive member combination).RefusesLate fault :=
  .bind (.lift h) fun keys => .bind (refusesLate_aggregate keys) fun _ => .pure _

theorem refusesLate_aggregateCombinations {member : ι → Except Fault PublicKey}
    {combinations : List (List ι)}
    (h : ∀ combination : List ι, combination.mapM member ≠ .error fault) :
    (aggregateCombinations primitive member combinations).RefusesLate fault := by
  induction combinations with
  | nil => exact .pure _
  | cons combination rest ih =>
      exact .bind (refusesLate_aggregateCombination (h combination)) fun _ =>
        .bind ih fun _ => .pure _

/-! ### Planned calls -/

/-- How an action ends that is to ask for the planned aggregates in turn: it has asked for all of
them and answers as it should, or the primitive has refused the last one that it asked for. -/
inductive AskedInTurn (primitive : Primitive) (planned : List (List PublicKey)) (Q : α → Prop) :
    List (List PublicKey) → Except Fault α → Prop
  | answered {value : α} (hvalue : Q value) : AskedInTurn primitive planned Q planned (.ok value)
  | refused {before rest : List (List PublicKey)} {keys : List PublicKey} {refusal : Fault}
      (hplanned : planned = before ++ keys :: rest) (hrefusal : primitive keys = .error refusal) :
      AskedInTurn primitive planned Q (before ++ [keys]) (.error refusal.ofPrimitive)

namespace AskedInTurn

variable {planned made : List (List PublicKey)} {Q : α → Prop}

theorem isPrefix {outcome : Except Fault α} (h : AskedInTurn primitive planned Q made outcome) :
    made <+: planned := by
  cases h with
  | answered => exact List.prefix_rfl
  | @refused before rest keys _ hplanned =>
      refine ⟨rest, ?_⟩
      rw [hplanned, List.append_assoc, List.singleton_append]

theorem eq_planned {value : α} (h : AskedInTurn primitive planned Q made (.ok value)) :
    made = planned := by
  cases h
  rfl

theorem exists_refused (h : AskedInTurn primitive planned Q made (.error fault)) :
    ∃ before keys refusal, made = before ++ [keys] ∧ primitive keys = .error refusal ∧
      fault = refusal.ofPrimitive := by
  cases h with
  | refused _ hrefusal => exact ⟨_, _, _, rfl, hrefusal, rfl⟩

theorem ne_nil {outcome : Except Fault α} (h : AskedInTurn primitive planned Q made outcome)
    (hplanned : planned ≠ []) : made ≠ [] := by
  cases h with
  | answered => exact hplanned
  | refused => exact List.append_ne_nil_of_right_ne_nil _ (List.cons_ne_nil _ _)

/-- What is asked for before puts off all the rest. -/
theorem after {outcome : Except Fault α} (h : AskedInTurn primitive planned Q made outcome)
    (earlier : List (List PublicKey)) :
    AskedInTurn primitive (earlier ++ planned) Q (earlier ++ made) outcome := by
  cases h with
  | answered hvalue => exact .answered hvalue
  | @refused before rest keys _ hplanned hrefusal =>
      have hall : earlier ++ planned = (earlier ++ before) ++ keys :: rest := by
        rw [hplanned, List.append_assoc]
      rw [← List.append_assoc]
      exact .refused hall hrefusal

/-- A refusal makes no difference to what was still to come. -/
theorem before {R : β → Prop} (h : AskedInTurn primitive planned Q made (.error fault))
    (later : List (List PublicKey)) :
    AskedInTurn primitive (planned ++ later) R made (.error fault) := by
  cases h with
  | @refused before rest keys _ hplanned hrefusal =>
      have hall : planned ++ later = before ++ keys :: (rest ++ later) := by
        rw [hplanned, List.append_assoc, List.cons_append]
      exact .refused hall hrefusal

end AskedInTurn

/-- On every ledger the action asks for the planned aggregates in turn, and for nothing else. -/
def Action.AsksInTurn (primitive : Primitive) (planned : List (List PublicKey)) (Q : α → Prop)
    (action : Action α) : Prop :=
  ∀ ledger : Ledger, ∃ made, (action.run ledger).2.calls = ledger.calls ++ made ∧
    AskedInTurn primitive planned Q made (action.run ledger).1

namespace Action.AsksInTurn

variable {planned later : List (List PublicKey)} {Q : α → Prop} {R : β → Prop}

theorem pure {value : α} (h : Q value) :
    (Pure.pure value : Action α).AsksInTurn primitive [] Q :=
  fun ledger => ⟨[], (List.append_nil ledger.calls).symm, .answered h⟩

theorem modify {change : Ledger → Ledger}
    (hcalls : ∀ ledger, (change ledger).calls = ledger.calls) :
    (modify change : Action Unit).AsksInTurn primitive [] fun _ => True :=
  fun ledger => ⟨[], (hcalls ledger).trans (List.append_nil _).symm, .answered trivial⟩

theorem bind {action : Action α} {next : α → Action β} (h : action.AsksInTurn primitive planned Q)
    (hnext : ∀ value, Q value → (next value).AsksInTurn primitive later R) :
    (action >>= next).AsksInTurn primitive (planned ++ later) R := by
  intro ledger
  obtain ⟨made, hcalls, hasked⟩ := h ledger
  rw [run_bind]
  generalize action.run ledger = outcome at hcalls hasked ⊢
  obtain ⟨fault | value, between⟩ := outcome
  · exact ⟨made, hcalls, hasked.before later⟩
  · cases hasked with
    | answered hvalue =>
        obtain ⟨rest, hrest, hasked⟩ := hnext value hvalue between
        refine ⟨planned ++ rest, ?_, hasked.after planned⟩
        calc ((next value).run between).2.calls
          _ = between.calls ++ rest := hrest
          _ = ledger.calls ++ (planned ++ rest) := by rw [hcalls, List.append_assoc]

theorem lift_bind {answer : Except Fault α} {value : α} {next : α → Action β}
    (hanswer : answer = .ok value) (hnext : (next value).AsksInTurn primitive later R) :
    ((liftM answer : Action α) >>= next).AsksInTurn primitive later R := by
  subst hanswer
  exact hnext

theorem silent_bind {action : Action α} {next : α → Action β}
    (h : action.AsksInTurn primitive [] Q)
    (hnext : ∀ value, Q value → (next value).AsksInTurn primitive later R) :
    (action >>= next).AsksInTurn primitive later R :=
  h.bind hnext

theorem bind_silent {action : Action α} {next : α → Action β}
    (h : action.AsksInTurn primitive planned Q)
    (hnext : ∀ value, Q value → (next value).AsksInTurn primitive [] R) :
    (action >>= next).AsksInTurn primitive planned R := by
  have hbind := h.bind hnext
  rwa [List.append_nil] at hbind

end Action.AsksInTurn

theorem asksInTurn_aggregate (keys : List PublicKey) :
    (aggregate primitive keys).AsksInTurn primitive [keys] fun _ => True := by
  intro ledger
  refine ⟨[keys], calls_aggregate keys ledger, ?_⟩
  obtain ⟨found, -, hrun⟩ | ⟨refusal, -, hrefusal, hrun⟩ | ⟨made, -, -, hrun⟩ :=
    run_aggregate_cases primitive keys ledger
  · rw [hrun]
    exact .answered trivial
  · rw [hrun]
    exact .refused (List.nil_append _).symm hrefusal
  · rw [hrun]
    exact .answered trivial

theorem asksInTurn_aggregateCombination {member : ι → Except Fault PublicKey}
    {combination : List ι} {keys : List PublicKey} (h : combination.mapM member = .ok keys) :
    (aggregateCombination primitive member combination).AsksInTurn primitive [keys]
      fun _ => True := by
  apply Action.AsksInTurn.lift_bind h
  exact (asksInTurn_aggregate _).bind_silent fun _ _ => .pure trivial

/-- Combinations are asked for in their order, and there is one answer for each. -/
theorem asksInTurn_aggregateCombinations {member : ι → Except Fault PublicKey}
    {combinations : List (List ι)} {planned : List (List PublicKey)}
    (h : combinations.mapM (·.mapM member) = .ok planned) :
    (aggregateCombinations primitive member combinations).AsksInTurn primitive planned
      (·.length = combinations.length) := by
  rw [mapM_eq_ok_iff] at h
  induction h with
  | nil => exact .pure rfl
  | cons hfirst _ ih =>
      refine (asksInTurn_aggregateCombination hfirst).bind fun _ _ => ?_
      refine ih.bind_silent fun rest hrest => .pure ?_
      rw [List.length_cons, List.length_cons, hrest]

end QuorumTree
