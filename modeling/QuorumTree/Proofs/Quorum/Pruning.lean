import QuorumTree.Proofs.Number
import QuorumTree.Proofs.Quorum.Enumeration
import QuorumTree.Proofs.Refusal
import QuorumTree.Quorum.Untrusted

/-!
Pruning the enumeration of quorums. What is kept is the first part of it, as long as the budget
says, or all of it; and it is the same again for a budget that was written down and given back.
-/

namespace QuorumTree

/-- The lesser of a total and a budget; without a budget it is the total. A budget that counts
nothing is accepted only where it is not below the total. -/
def retainedCount (total : Nat) (budget : Option Number) : Nat :=
  match budget.bind Number.toInt? with
  | some budget => min budget.toNat total
  | none => total

section

variable {α : Type}

/-- The first items up to a limit, or all of them. -/
def firstWithin (limit : Option Nat) (items : List α) : List α :=
  match limit with
  | some count => items.take count
  | none => items

/-! ### Reading a source that lists its items -/

namespace Source

variable {source : Source α} {items : List α}

theorem Yields.take_eq {state last : source.State} (h : source.Yields state items last)
    (hend : source.next last = .ok none) (taken : List α) (pulled count : Nat) :
    (Progress.mk state taken pulled).take count =
      ⟨.ok (taken.reverse ++ items.take count), pulled + (items.take count).length⟩ := by
  induction h generalizing taken pulled count with
  | nil =>
      rw [List.take_nil, List.append_nil]
      exact Progress.take_of_end hend count
  | @cons _ _ _ item items hnext _ ih =>
      cases count with
      | zero => simp [Progress.take, Progress.close]
      | succ count =>
          refine (Progress.take_of_item hnext count).trans ((ih hend _ _ count).trans ?_)
          simp only [List.reverse_cons, List.append_assoc, List.singleton_append,
            List.take_succ_cons, List.length_cons, Nat.add_assoc, Nat.add_comm 1]

theorem Lists.read_eq (h : source.Lists source.start items) (limit : Option Nat) :
    source.read limit =
      some ⟨.ok (firstWithin limit items), (firstWithin limit items).length⟩ := by
  cases limit with
  | none => exact h.drain_eq
  | some count =>
      obtain ⟨last, hitems, hend⟩ := h
      refine congrArg some ((hitems.take_eq hend [] 0 count).trans ?_)
      rw [List.reverse_nil, List.nil_append, Nat.zero_add]
      rfl

end Source

/-! ### Pruning it -/

variable {source : FiniteSource α} {items : List α}

theorem FiniteSource.read_eq (h : source.Lists source.start items) (limit : Option Nat) :
    source.read limit = ⟨.ok (firstWithin limit items), (firstWithin limit items).length⟩ :=
  Option.get_of_eq_some _ (h.read_eq limit)

theorem FiniteSource.answer_prune (h : source.Lists source.start items) {total : Number}
    {budget : Option Number} :
    (source.prune total budget).answer =
      (checkBudget budget >>= fun _ => limitWithin total budget).map fun limit =>
        ⟨firstWithin limit items, total, budget, (firstWithin limit items).length⟩ := by
  have hprune : QuorumTree.prune source.toSource total budget =
      some (source.prune total budget) := (Option.some_get _).symm
  unfold QuorumTree.prune at hprune
  split at hprune
  · next limit hlimit =>
      rw [h.read_eq limit] at hprune
      rw [← Option.some.inj hprune, hlimit]
      rfl
  · next fault hfault =>
      rw [← Option.some.inj hprune, hfault]
      rfl

/-- What is kept of the items listed are the first of them, up to the limit of a budget that is
accepted. -/
theorem pruneData_eq_ok_iff (h : source.Lists source.start items) {total : Int} {budget : Datum}
    {pruned : Pruned α} :
    pruneData source (.int total) budget = .ok pruned ↔
      ∃ given limit, budget.toOptionalNumber = .ok given ∧ checkBudget given = .ok () ∧
        limitWithin (.whole total) given = .ok limit ∧
        ⟨firstWithin limit items, .whole total, given, (firstWithin limit items).length⟩ =
          pruned := by
  simp only [pruneData, Datum.toNumber?, FiniteSource.answer_prune h, bind_eq_ok_iff]
  constructor
  · rintro ⟨given, hgiven, _, hchecked, hpruned⟩
    rw [hchecked] at hpruned
    change (limitWithin _ given).map _ = _ at hpruned
    cases hlimit : limitWithin (.whole total) given with
    | ok limit =>
        rw [hlimit] at hpruned
        exact ⟨given, limit, hgiven, hchecked, hlimit, Except.ok.inj hpruned⟩
    | error fault =>
        rw [hlimit] at hpruned
        cases hpruned
  · rintro ⟨given, limit, hgiven, hchecked, hlimit, hpruned⟩
    refine ⟨given, hgiven, (), hchecked, ?_⟩
    rw [hchecked]
    change (limitWithin _ given).map _ = _
    rw [hlimit]
    exact congrArg Except.ok hpruned

theorem checkBudget_eq_ok_iff {given : Number} :
    checkBudget (some given) = .ok () ↔ given.lt (.whole 0) = false := by
  unfold checkBudget
  split <;> simp_all

/-- A budget of zero keeps nothing, and the source is not even asked for its items. -/
theorem pruneData_of_toInt?_eq_zero {total : Nat} (htotal : 0 < total) {budget : Number}
    (hzero : budget.toInt? = some 0) :
    pruneData source (.int total) (.number budget) = .ok ⟨[], .whole total, some budget, 0⟩ := by
  have hchecked : checkBudget (some budget) = .ok () := by
    rw [checkBudget_eq_ok_iff, Number.lt, hzero]
    rfl
  have hlimit : limitWithin (.whole total) (some budget) = .ok (some 0) := by
    have hle : (Number.whole total).le budget = false := by
      rw [Number.le, hzero]
      apply decide_eq_false
      omega
    have hcount : ¬ maxBudget < 0 := by decide
    simp only [limitWithin, hle, hzero, hcount, Bool.false_eq_true, if_false, Int.toNat_zero]
  have hprune : prune source.toSource (.whole total) (some budget) =
      some ⟨.ok ⟨[], .whole total, some budget, 0⟩, 0⟩ := by
    have hboth : (checkBudget (some budget) >>= fun _ =>
        limitWithin (.whole total) (some budget)) = .ok (some 0) := by
      rw [hchecked, hlimit]
      rfl
    rw [prune, hboth]
    rfl
  change checkBudget (some budget) >>= (fun _ =>
    (source.prune (.whole total) (some budget)).answer) = _
  rw [hchecked, FiniteSource.prune, Option.get_of_eq_some _ hprune]
  rfl

/-! ### Budgets given back -/

/-- A budget that is given back sets the same limit: one that counts still does, and one that counts
nothing covered the total. -/
theorem limitWithin_of_isGivenBackAs {total given back : Number} {limit : Option Nat}
    (hback : given.IsGivenBackAs back) (h : limitWithin total (some given) = .ok limit) :
    limitWithin total (some back) = .ok limit := by
  unfold limitWithin at h ⊢
  dsimp only at h ⊢
  rw [hback.le_eq]
  split_ifs at h ⊢ with hcovers
  · exact h
  · cases hgiven : given.toInt? with
    | none =>
        rw [hgiven] at h
        cases h
    | some count =>
        rw [hgiven] at h
        rw [hback.counts count hgiven]
        exact h

theorem pruneData_of_isGivenBackAs (hlists : source.Lists source.start items) {total : Int}
    {budget again : Datum} {back : Option Number} {pruned : Pruned α}
    (h : pruneData source (.int total) budget = .ok pruned)
    (hback : Option.Rel Number.IsGivenBackAs pruned.budget back)
    (hagain : again.toOptionalNumber = .ok back) :
    pruneData source (.int total) again = .ok { pruned with budget := back } := by
  obtain ⟨given, limit, -, hchecked, hlimit, rfl⟩ := (pruneData_eq_ok_iff hlists).mp h
  refine (pruneData_eq_ok_iff hlists).mpr ⟨back, limit, hagain, ?_, ?_, rfl⟩
  · cases hback with
    | none => exact hchecked
    | some hback =>
        rw [checkBudget_eq_ok_iff] at hchecked ⊢
        rwa [hback.lt_eq]
  · cases hback with
    | none => exact hlimit
    | some hback => exact limitWithin_of_isGivenBackAs hback hlimit

/-! ### What is refused -/

/-- Pruning what is listed is refused only for the budget. -/
theorem refusesOnly_pruneData (h : source.Lists source.start items) {P : Fault → Prop}
    {budget : Datum} (hnumber : RefusesOnly P budget.toOptionalNumber)
    (hnegative : ∀ budget, P (.negativeBudget budget)) (hlong : P .numberTooLong)
    (hlarge : P .budgetTooLarge) (total : Int) :
    RefusesOnly P (pruneData source (.int total) budget) := by
  refine .bind hnumber fun budget => ?_
  have hbudget : RefusesOnly P (checkBudget budget) := by
    unfold checkBudget
    split
    · split_ifs
      · exact .telling (hnegative _) hlong
      · exact .ok _
    · exact .ok _
  have hlimit : RefusesOnly P (limitWithin (.whole total) budget) := by
    unfold limitWithin
    split
    · exact .ok _
    · split_ifs
      · exact .ok _
      · split
        · split_ifs
          · exact .error hlarge
          · exact .ok _
        · exact .error hlarge
  refine .bind hbudget fun _ => ?_
  dsimp only [Datum.toNumber?]
  rw [FiniteSource.answer_prune h]
  exact .map (.bind hbudget fun _ => hlimit) _

theorem Combination.refusesOnly_withinCeiling {P : Fault → Prop}
    (hmany : ∀ n m count ceiling, P (.tooManyCombinations n m count ceiling))
    (hlong : P .numberTooLong) (stated : StatedThreshold) (count : Nat) (ceiling : Number) :
    RefusesOnly P (withinCeiling stated count ceiling) := by
  unfold withinCeiling
  split_ifs
  · exact .telling (hmany _ _ _ _) hlong
  · exact .ok _

end

/-- A ceiling only refuses; a count that passes is the total. -/
theorem Combination.eq_of_withinCeiling {stated : StatedThreshold} {count total : Nat}
    {ceiling : Number} (h : withinCeiling stated count ceiling = .ok total) : total = count := by
  unfold withinCeiling at h
  split_ifs at h
  cases h
  rfl

/-! ### Quorums -/

/-- The participants are listed where there is room for their indices. -/
theorem Combination.listable_eq_ok_iff [Machine] {t listed : Threshold} :
    listable t = .ok listed ↔
      listed = t ∧ t.n < 2 ^ 63 ∧ Machine.holdsIndices t.n = true := by
  unfold listable
  split_ifs with hwide hholds
  · rw [false_iff]
    omega
  · rw [Except.ok.injEq, eq_comm]
    exact ⟨fun h => ⟨h, by omega, hholds⟩, And.left⟩
  · simp [hholds]

theorem Source.lists_quorums (t : Threshold) :
    (quorums t).Lists (quorums t).start (Combination.all t) :=
  Combination.source_lists_all t

section

variable {t : Threshold} {budget : Datum} {pruned : Pruned Combination}

/-- The limit that an accepted budget sets keeps the first quorums, as many as it counts. -/
theorem firstWithin_all {given : Option Number} {limit : Option Nat}
    (h : limitWithin (.whole (Combination.count t)) given = .ok limit) :
    firstWithin limit (Combination.all t) =
      (Combination.all t).take (retainedCount (Combination.count t) given) := by
  have hwhole (count : Nat) (hcount : Combination.count t ≤ count) :
      firstWithin none (Combination.all t) = (Combination.all t).take count := by
    rw [List.take_of_length_le (by rwa [Combination.length_all, ← Combination.count_eq_choose])]
    rfl
  unfold limitWithin at h
  unfold retainedCount
  cases given with
  | none =>
      cases h
      exact hwhole _ (Nat.le_refl _)
  | some given =>
      dsimp only at h
      rw [Option.bind_some]
      cases hgiven : given.toInt? with
      | none =>
          rw [hgiven] at h
          split_ifs at h
          cases h
          exact hwhole _ (Nat.le_refl _)
      | some count =>
          have hle : (Number.whole (Combination.count t)).le given =
              decide ((Combination.count t : Int) ≤ count) := by
            rw [Number.le, hgiven]
            rfl
          rw [hgiven, hle] at h
          dsimp only at h ⊢
          split_ifs at h with hcovers
          · cases h
            rw [decide_eq_true_eq] at hcovers
            exact hwhole _ (by omega)
          · cases h
            rw [decide_eq_true_eq] at hcovers
            rw [Nat.min_eq_left (by omega)]
            rfl

/-- A budget that counts nothing is accepted only where it keeps everything. -/
theorem le_of_limitWithin {total given : Number} {limit : Option Nat}
    (h : limitWithin total (some given) = .ok limit) (hgiven : given.toInt? = none) :
    total.le given = true := by
  by_contra hbelow
  simp [limitWithin, hbelow, hgiven] at h

theorem pruneData_quorums
    (h : pruneData (Source.quorums t) (.int (Combination.count t)) budget = .ok pruned) :
    budget.toOptionalNumber = .ok pruned.budget ∧
      pruned.retained =
        (Combination.all t).take (retainedCount (Combination.count t) pruned.budget) ∧
      pruned.dropped = .whole (Combination.count t - pruned.retained.length) ∧
      (∀ budget, pruned.budget = some budget → budget.lt (.whole 0) = false) ∧
      ∀ budget, pruned.budget = some budget → budget.toInt? = none →
        (Number.whole (Combination.count t)).le budget = true := by
  obtain ⟨given, limit, hgiven, hchecked, hlimit, rfl⟩ :=
    (pruneData_eq_ok_iff (Source.lists_quorums t)).mp h
  refine ⟨hgiven, firstWithin_all hlimit, rfl, ?_, ?_⟩
  · rintro budget rfl
    exact checkBudget_eq_ok_iff.mp hchecked
  · rintro budget rfl hbudget
    exact le_of_limitWithin hlimit hbudget

/-- The members of what is kept are all participants. -/
theorem lt_of_mem_retained
    (h : pruneData (Source.quorums t) (.int (Combination.count t)) budget = .ok pruned)
    {combination : Combination} (hcombination : combination ∈ pruned.retained) {index : Nat}
    (hindex : index ∈ combination) : index < t.n := by
  obtain ⟨-, hretained, -, -, -⟩ := pruneData_quorums h
  rw [hretained] at hcombination
  exact (Combination.mem_all_iff.mp (List.mem_of_mem_take hcombination)).2.2 index hindex

/-- Quorums are kept, some of them at least, where there is no budget or it counts at least one. -/
theorem exists_pruneData_quorums (hbudget : budget = .null ∨
      ∃ count : Int, budget = .int count ∧ 1 ≤ count ∧ count ≤ maxBudget) :
    ∃ pruned, pruneData (Source.quorums t) (.int (Combination.count t)) budget = .ok pruned ∧
      pruned.retained ≠ [] := by
  have hall : 0 < (Combination.all t).length := by
    rw [Combination.length_all]
    exact Nat.choose_pos t.le
  rcases hbudget with rfl | ⟨count, rfl, hone, hmost⟩
  · exact ⟨_, (pruneData_eq_ok_iff (Source.lists_quorums t)).mpr ⟨none, none, rfl, rfl, rfl, rfl⟩,
      List.length_pos_iff.mp hall⟩
  · have hchecked : checkBudget (some (.whole count)) = .ok () := by
      rw [checkBudget_eq_ok_iff, Number.whole_lt_whole, decide_eq_false_iff_not]
      omega
    obtain ⟨limit, hlimit, hsome⟩ : ∃ limit,
        limitWithin (.whole (Combination.count t)) (some (.whole count)) = .ok limit ∧
          0 < (firstWithin limit (Combination.all t)).length := by
      simp only [limitWithin, Number.toInt?, Int.not_lt.mpr hmost, if_false]
      split_ifs
      · exact ⟨none, rfl, hall⟩
      · refine ⟨some count.toNat, rfl, ?_⟩
        rw [firstWithin, List.length_take]
        omega
    exact ⟨_, (pruneData_eq_ok_iff (Source.lists_quorums t)).mpr
      ⟨_, limit, rfl, hchecked, hlimit, rfl⟩, List.length_pos_iff.mp hsome⟩

end

end QuorumTree
