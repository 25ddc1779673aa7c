import Mathlib.Data.List.Perm.Basic

/-!
Sequences of steps that may be refused. A traversal succeeds exactly when every item does, and its
answers then stand beside the items they were made from.
-/

namespace QuorumTree

variable {α β γ ε : Type}

theorem forall₂_comp {R : α → β → Prop} {S : β → γ → Prop} {T : α → γ → Prop}
    (hstep : ∀ a b c, R a b → S b c → T a c) {xs : List α} {ys : List β} {zs : List γ}
    (hxs : List.Forall₂ R xs ys) (hys : List.Forall₂ S ys zs) : List.Forall₂ T xs zs := by
  induction hxs generalizing zs with
  | nil =>
      cases hys
      exact .nil
  | cons hfirst _ ih =>
      obtain _ | ⟨hsecond, hrest⟩ := hys
      exact .cons (hstep _ _ _ hfirst hsecond) (ih hrest)

theorem bind_eq_ok_iff {first : Except ε α} {next : α → Except ε β} {answer : β} :
    first >>= next = .ok answer ↔ ∃ found, first = .ok found ∧ next found = .ok answer := by
  cases first with
  | error fault => simp [bind, Except.bind]
  | ok found => simp [bind, Except.bind]

theorem bind_eq_error_iff {first : Except ε α} {next : α → Except ε β} {fault : ε} :
    first >>= next = .error fault ↔
      first = .error fault ∨ ∃ found, first = .ok found ∧ next found = .error fault := by
  cases first with
  | error fault => simp [bind, Except.bind]
  | ok found => simp [bind, Except.bind]

theorem mapM_eq_ok_iff {items : List α} {step : α → Except ε β} {answers : List β} :
    items.mapM step = .ok answers ↔
      List.Forall₂ (fun item answer => step item = .ok answer) items answers := by
  induction items generalizing answers with
  | nil => cases answers <;> simp [pure, Except.pure]
  | cons item items ih =>
      simp only [List.mapM_cons, bind_eq_ok_iff, ih]
      constructor
      · rintro ⟨first, hfirst, rest, hrest, hanswers⟩
        cases hanswers
        exact .cons hfirst hrest
      · rintro (_ | ⟨hfirst, hrest⟩)
        exact ⟨_, hfirst, _, hrest, rfl⟩

/-- A traversal is refused as the first item is that is refused at all. -/
theorem mapM_eq_error_iff {items : List α} {step : α → Except ε β} {fault : ε} :
    items.mapM step = .error fault ↔
      ∃ before item after, items = before ++ item :: after ∧
        (∀ other ∈ before, ∃ answer, step other = .ok answer) ∧ step item = .error fault := by
  induction items with
  | nil => simp [pure, Except.pure]
  | cons item items ih =>
      simp only [List.mapM_cons, bind_eq_error_iff, ih]
      constructor
      · rintro (hitem | ⟨answer, hanswer, ⟨before, other, after, rfl, hbefore, hother⟩ |
          ⟨_, -, hnever⟩⟩)
        · exact ⟨[], item, items, rfl, List.forall_mem_nil _, hitem⟩
        · refine ⟨item :: before, other, after, rfl, ?_, hother⟩
          exact List.forall_mem_cons.mpr ⟨⟨answer, hanswer⟩, hbefore⟩
        · cases hnever
      · rintro ⟨_ | ⟨first, before⟩, other, after, hitems, hbefore, hother⟩
        · cases hitems
          exact .inl hother
        · cases hitems
          obtain ⟨⟨answer, hanswer⟩, hrest⟩ := List.forall_mem_cons.mp hbefore
          exact .inr ⟨answer, hanswer, .inl ⟨before, other, after, rfl, hrest, hother⟩⟩

/-- What refuses a traversal is what refuses one of the items. -/
theorem exists_of_mapM_eq_error {items : List α} {step : α → Except ε β} {fault : ε}
    (h : items.mapM step = .error fault) : ∃ item ∈ items, step item = .error fault := by
  obtain ⟨before, item, after, rfl, -, hitem⟩ := mapM_eq_error_iff.mp h
  exact ⟨item, List.mem_append_right before List.mem_cons_self, hitem⟩

theorem mapM_eq_some_iff {items : List α} {step : α → Option β} {answers : List β} :
    items.mapM step = some answers ↔
      List.Forall₂ (fun item answer => step item = some answer) items answers := by
  induction items generalizing answers with
  | nil => cases answers <;> simp
  | cons item items ih =>
      simp only [List.mapM_cons, Option.bind_eq_bind, Option.bind_eq_some_iff, ih]
      constructor
      · rintro ⟨first, hfirst, rest, hrest, hanswers⟩
        cases hanswers
        exact .cons hfirst hrest
      · rintro (_ | ⟨hfirst, hrest⟩)
        exact ⟨_, hfirst, _, hrest, rfl⟩

theorem forM_eq_ok_iff {items : List α} {step : α → Except ε Unit} :
    items.forM step = .ok () ↔ ∀ item ∈ items, step item = .ok () := by
  induction items with
  | nil => exact iff_of_true rfl (List.forall_mem_nil _)
  | cons item items ih =>
      rw [List.forM, bind_eq_ok_iff, List.forall_mem_cons]
      exact ⟨fun ⟨_, hfirst, hrest⟩ => ⟨hfirst, ih.mp hrest⟩,
        fun ⟨hfirst, hrest⟩ => ⟨(), hfirst, ih.mpr hrest⟩⟩

theorem exists_of_forM_eq_error {items : List α} {step : α → Except ε Unit} {fault : ε}
    (h : items.forM step = .error fault) : ∃ item ∈ items, step item = .error fault := by
  induction items with
  | nil => cases h
  | cons item items ih =>
      rw [List.forM, bind_eq_error_iff] at h
      rcases h with hfirst | ⟨_, -, hrest⟩
      · exact ⟨item, List.mem_cons_self, hfirst⟩
      · obtain ⟨other, hother, hrefused⟩ := ih hrest
        exact ⟨other, List.mem_cons_of_mem item hother, hrefused⟩

theorem exists_mapM_eq_ok {items : List α} {step : α → Except ε β}
    (h : ∀ item ∈ items, ∃ answer, step item = .ok answer) :
    ∃ answers, items.mapM step = .ok answers := by
  simp only [mapM_eq_ok_iff]
  induction items with
  | nil => exact ⟨[], .nil⟩
  | cons item items ih =>
      obtain ⟨answer, hanswer⟩ := h item List.mem_cons_self
      obtain ⟨answers, hanswers⟩ := ih fun other hother => h other (List.mem_cons_of_mem _ hother)
      exact ⟨answer :: answers, .cons hanswer hanswers⟩

theorem exists_of_mem_answers {items : List α} {step : α → Except ε β} {answers : List β}
    (h : items.mapM step = .ok answers) {answer : β} (hanswer : answer ∈ answers) :
    ∃ item ∈ items, step item = .ok answer := by
  rw [mapM_eq_ok_iff] at h
  induction h with
  | nil => cases hanswer
  | cons hfirst _ ih =>
      rcases List.mem_cons.mp hanswer with rfl | hrest
      · exact ⟨_, List.mem_cons_self, hfirst⟩
      · obtain ⟨item, hitem, hstep⟩ := ih hrest
        exact ⟨item, List.mem_cons_of_mem _ hitem, hstep⟩

end QuorumTree
