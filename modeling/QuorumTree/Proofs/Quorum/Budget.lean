import QuorumTree.Proofs.Quorum.Pruning

/-!
How far pruning reads. A source is read up to the budget only where the budget is below the stated
total; otherwise it is read to its end, if it has one, and a source that is longer than its stated
total is read past the budget.
-/

namespace QuorumTree

variable {α : Type}

/-- A reading with what was read before it. -/
def Reading.after (reading : Reading (List α)) (taken : List α) (pulled : Nat) :
    Reading (List α) :=
  ⟨reading.answer.map (taken.reverse ++ ·), pulled + reading.consumed⟩

theorem Reading.after_nil (reading : Reading (List α)) : reading.after [] 0 = reading := by
  obtain ⟨answer, consumed⟩ := reading
  cases answer <;> simp [Reading.after, Except.map]

theorem Reading.after_cons (reading : Reading (List α)) (item : α) (taken : List α)
    (pulled : Nat) :
    reading.after (item :: taken) (pulled + 1) = (reading.after [item] 1).after taken pulled := by
  obtain ⟨answer, consumed⟩ := reading
  cases answer <;> simp [Reading.after, Except.map, Nat.add_assoc, Nat.add_comm 1]

namespace Source

variable {source : Source α}

/-- What comes of reading from a state on, up to a limit. Reading ends with the limit, with the
source or with a refusal; what the source handed over until then is consumed, and nothing else. -/
inductive Reads (source : Source α) (state : source.State) (limit : Option Nat) :
    Reading (List α) → Prop
  | full {items : List α} {last : source.State} (hitems : source.Yields state items last)
      (hlimit : limit = some items.length) : Reads source state limit ⟨.ok items, items.length⟩
  | ended {items : List α} {last : source.State} (hitems : source.Yields state items last)
      (hbelow : ∀ count, limit = some count → items.length < count)
      (hend : source.next last = .ok none) : Reads source state limit ⟨.ok items, items.length⟩
  | refused {items : List α} {last : source.State} {fault : Fault}
      (hitems : source.Yields state items last)
      (hbelow : ∀ count, limit = some count → items.length < count)
      (hfault : source.next last = .error fault) :
      Reads source state limit ⟨.error fault, items.length⟩

/-- The source comes to its end after so many items at most, or is refused before as many. -/
def EndsWithin (source : Source α) (count : Nat) : Prop :=
  ∃ items last, source.Yields source.start items last ∧
    ((source.next last = .ok none ∧ items.length ≤ count) ∨
      ∃ fault, source.next last = .error fault ∧ items.length < count)

theorem Reads.consumed_le {state : source.State} {count : Nat} {reading : Reading (List α)}
    (h : source.Reads state (some count) reading) : reading.consumed ≤ count := by
  cases h with
  | full _ hlimit => exact (Option.some.inj hlimit).ge
  | ended _ hbelow _ => exact (hbelow count rfl).le
  | refused _ hbelow _ => exact (hbelow count rfl).le

/-- An item in front of what is read takes up one more of the limit. -/
theorem Reads.pulled {state further : source.State} {item : α}
    (hnext : source.next state = .ok (some (item, further))) {limit : Option Nat}
    {reading : Reading (List α)} (h : source.Reads further limit reading) :
    source.Reads state (limit.map (· + 1)) (reading.after [item] 1) := by
  have hone : ∀ items : List α, 1 + items.length = (item :: items).length := fun items => by
    rw [List.length_cons, Nat.add_comm]
  have hmore {items : List α} (hbelow : ∀ count, limit = some count → items.length < count) :
      ∀ count, limit.map (· + 1) = some count → (item :: items).length < count := by
    intro count hcount
    obtain ⟨less, hless, rfl⟩ := Option.map_eq_some_iff.mp hcount
    exact Nat.succ_lt_succ (hbelow less hless)
  cases h with
  | @full items _ hitems hlimit =>
      simp only [Reading.after, Except.map, List.reverse_singleton, List.singleton_append, hone]
      exact .full (.cons hnext hitems) (by rw [hlimit]; rfl)
  | @ended items _ hitems hbelow hend =>
      simp only [Reading.after, Except.map, List.reverse_singleton, List.singleton_append, hone]
      exact .ended (.cons hnext hitems) (hmore hbelow) hend
  | @refused items _ _ hitems hbelow hfault =>
      simp only [Reading.after, Except.map, hone]
      exact .refused (.cons hnext hitems) (hmore hbelow) hfault

/-! ### Taking and draining -/

theorem Progress.close_eq_after (progress : Progress source) :
    progress.close = Reading.after ⟨.ok [], 0⟩ progress.taken progress.pulled := by
  simp [close, Reading.after, Except.map]

theorem Progress.refuse_eq_after (progress : Progress source) (fault : Fault) :
    progress.refuse fault = Reading.after ⟨.error fault, 0⟩ progress.taken progress.pulled :=
  rfl

theorem exists_reads_take (count : Nat) (progress : Progress source) :
    ∃ reading, source.Reads progress.state (some count) reading ∧
      progress.take count = reading.after progress.taken progress.pulled := by
  induction count generalizing progress with
  | zero => exact ⟨_, .full (.nil _) rfl, progress.close_eq_after⟩
  | succ count ih =>
      have hbelow : ∀ limit, some (count + 1) = some limit → 0 < limit := fun limit h =>
        Option.some.inj h ▸ Nat.succ_pos count
      cases hnext : source.next progress.state with
      | error fault =>
          refine ⟨_, .refused (.nil _) hbelow hnext, ?_⟩
          exact (Progress.take_of_refusal hnext count).trans (progress.refuse_eq_after fault)
      | ok pulled =>
          cases pulled with
          | none =>
              refine ⟨_, .ended (.nil _) hbelow hnext, ?_⟩
              exact (Progress.take_of_end hnext _).trans progress.close_eq_after
          | some pulled =>
              obtain ⟨item, further⟩ := pulled
              obtain ⟨reading, hreads, htake⟩ :=
                ih ⟨further, item :: progress.taken, progress.pulled + 1⟩
              refine ⟨_, hreads.pulled hnext, ?_⟩
              rw [Progress.take_of_item hnext, htake, ← Reading.after_cons]

theorem drain_eq_some_iff {progress : Progress source} {whole : Reading (List α)} :
    progress.drain = some whole ↔
      ∃ reading, source.Reads progress.state none reading ∧
        reading.after progress.taken progress.pulled = whole := by
  constructor
  · -- Draining is unrolled once, and what it comes to from the next state on is known.
    refine Progress.drain.partial_correctness
      (fun progress whole => ∃ reading, source.Reads progress.state none reading ∧
        reading.after progress.taken progress.pulled = whole)
      (fun drain ih progress whole h => ?_) progress whole
    cases hnext : source.next progress.state with
    | error fault =>
        rw [Progress.pull_of_refusal hnext] at h
        cases h
        exact ⟨_, .refused (.nil _) nofun hnext, (progress.refuse_eq_after fault).symm⟩
    | ok pulled =>
        cases pulled with
        | none =>
            rw [Progress.pull_of_end hnext] at h
            cases h
            exact ⟨_, .ended (.nil _) nofun hnext, progress.close_eq_after.symm⟩
        | some pulled =>
            obtain ⟨item, further⟩ := pulled
            rw [Progress.pull_of_item hnext] at h
            obtain ⟨reading, hreads, rfl⟩ := ih _ _ h
            exact ⟨_, hreads.pulled hnext, (reading.after_cons _ _ _).symm⟩
  · rintro ⟨reading, hreads, rfl⟩
    cases hreads with
    | full _ hlimit => cases hlimit
    | ended hitems _ hend =>
        refine (hitems.drain_eq _ _).trans ((Progress.drain_of_end hend).trans ?_)
        simp [Progress.close, Reading.after, Except.map]
    | refused hitems _ hfault =>
        exact (hitems.drain_eq _ _).trans (Progress.drain_of_refusal hfault)

theorem exists_read_some (source : Source α) (count : Nat) :
    ∃ first, source.Reads source.start (some count) first ∧
      source.read (some count) = some first := by
  obtain ⟨first, hreads, htake⟩ := exists_reads_take count (.begin source)
  exact ⟨first, hreads, congrArg some (htake.trans first.after_nil)⟩

theorem read_none_eq_some_iff {whole : Reading (List α)} :
    source.read none = some whole ↔ source.Reads source.start none whole := by
  refine drain_eq_some_iff.trans ⟨?_, fun h => ⟨whole, h, whole.after_nil⟩⟩
  rintro ⟨reading, hreads, rfl⟩
  rwa [Progress.begin, Reading.after_nil]

/-- Reading to the end is reading to a limit where the source ends within it. -/
theorem exists_reads_both_iff {count : Nat} :
    (∃ reading, source.Reads source.start (some count) reading ∧
      source.Reads source.start none reading) ↔ source.EndsWithin count := by
  constructor
  · rintro ⟨reading, hfirst, hwhole⟩
    have hfew := hfirst.consumed_le
    cases hwhole with
    | full _ hlimit => cases hlimit
    | ended hitems _ hend => exact ⟨_, _, hitems, .inl ⟨hend, hfew⟩⟩
    | @refused items _ _ hitems _ hfault =>
        refine ⟨_, _, hitems, .inr ⟨_, hfault, ?_⟩⟩
        generalize hreading : Reading.mk _ items.length = reading at hfirst
        cases hfirst with
        | full => cases hreading
        | ended => cases hreading
        | refused _ hbelow _ =>
            have hlength : items.length = _ := congrArg Reading.consumed hreading
            rw [hlength]
            exact hbelow count rfl
  · rintro ⟨items, last, hitems, ⟨hend, hfew⟩ | ⟨fault, hfault, hfew⟩⟩
    · refine ⟨_, ?_, .ended hitems nofun hend⟩
      rcases hfew.lt_or_eq with hbelow | hfull
      · exact .ended hitems (fun _ h => by cases h; exact hbelow) hend
      · exact .full hitems (congrArg some hfull.symm)
    · exact ⟨_, .refused hitems (fun _ h => by cases h; exact hfew) hfault,
        .refused hitems nofun hfault⟩

end Source

/-! ### Pruning -/

theorem Reading.pruned_injective {total : Number} {budget : Option Number}
    {reading other : Reading (List α)}
    (h : reading.pruned total budget = other.pruned total budget) : reading = other := by
  obtain ⟨answer, consumed⟩ := reading
  obtain ⟨answer', consumed'⟩ := other
  cases answer <;> cases answer' <;> simp_all [Reading.pruned, Except.map]

theorem checkBudget_whole {budget : Int} (h : 0 ≤ budget) :
    checkBudget (some (.whole budget)) = .ok () := by
  rw [checkBudget_eq_ok_iff, Number.whole_lt_whole, decide_eq_false_iff_not]
  omega

theorem limitWithin_whole (total : Number) (budget : Int) :
    limitWithin total (some (.whole budget)) =
      if total.le (.whole budget) then .ok none
      else if maxBudget < budget then .error .budgetTooLarge else .ok (some budget.toNat) :=
  rfl

theorem prune_whole (source : Source α) (total : Number) {budget : Int} (h : 0 ≤ budget) :
    prune source total (some (.whole budget)) =
      match limitWithin total (some (.whole budget)) with
      | .ok limit => (source.read limit).map (·.pruned total (some (.whole budget)))
      | .error fault => some ⟨.error fault, 0⟩ := by
  rw [prune, checkBudget_whole h]
  rfl

/-- What pruning takes from a source, whatever its stated total. Below the total a budget is kept
to: the source is read up to it and no further, also one that never ends or is refused later on.
A budget that is not below the total, like none, has the source read to its end, which keeps to the
budget only if the source ends within it; and one that is below the total but larger than any limit
is refused before anything is read. -/
theorem prune_reads (source : Source α) (total : Number) :
    (∀ reading, prune source total none = some reading ↔
      ∃ whole, source.Reads source.start none whole ∧ whole.pruned total none = reading) ∧
    ∀ budget : Int, 0 ≤ budget →
      (total.le (.whole budget) = false → maxBudget < budget →
        prune source total (some (.whole budget)) = some ⟨.error .budgetTooLarge, 0⟩) ∧
      (total.le (.whole budget) = false → budget ≤ maxBudget →
        ∃ first, source.Reads source.start (some budget.toNat) first ∧ first.consumed ≤ budget ∧
          prune source total (some (.whole budget)) =
            some (first.pruned total (some (.whole budget)))) ∧
      (total.le (.whole budget) = true →
        (∀ reading, prune source total (some (.whole budget)) = some reading ↔
          ∃ whole, source.Reads source.start none whole ∧
            whole.pruned total (some (.whole budget)) = reading) ∧
        ((∃ first, source.Reads source.start (some budget.toNat) first ∧
            prune source total (some (.whole budget)) =
              some (first.pruned total (some (.whole budget)))) ↔
          source.EndsWithin budget.toNat)) := by
  have hdrained (given : Option Number) (reading : Reading (Pruned α)) :
      (source.read none).map (·.pruned total given) = some reading ↔
        ∃ whole, source.Reads source.start none whole ∧ whole.pruned total given = reading := by
    simp only [Option.map_eq_some_iff, Source.read_none_eq_some_iff]
  refine ⟨hdrained none, fun budget hbudget => ⟨fun hbelow hlarge => ?_, fun hbelow hfits => ?_,
    fun hcovers => ?_⟩⟩
  · rw [prune_whole source total hbudget, limitWithin_whole, hbelow, if_pos hlarge]
    rfl
  · obtain ⟨first, hreads, hread⟩ := source.exists_read_some budget.toNat
    have hfew := hreads.consumed_le
    refine ⟨first, hreads, by omega, ?_⟩
    rw [prune_whole source total hbudget, limitWithin_whole, hbelow,
      if_neg (Int.not_lt.mpr hfits)]
    exact congrArg (Option.map _) hread
  · rw [prune_whole source total hbudget, limitWithin_whole, if_pos hcovers]
    refine ⟨hdrained _, ?_⟩
    rw [← Source.exists_reads_both_iff]
    refine exists_congr fun first => and_congr_right fun _ => (hdrained _ _).trans ?_
    exact ⟨fun ⟨whole, hwhole, h⟩ => Reading.pruned_injective h ▸ hwhole, fun h => ⟨first, h, rfl⟩⟩

/-- A source that hands over the same item forever. -/
def endlessly (item : α) : Source α where
  State := Unit
  start := ()
  next _ := .ok (some (item, ()))

/-- Five pairs whose stated total is three. A budget of two keeps two of them and takes no other. A
budget of three keeps and takes all five, which is not what reading three of them comes to, and with
that total nothing ever comes of a source that does not end. -/
theorem prune_reads_five_pairs :
    let pairs : List Combination := [[0, 1], [0, 2], [0, 3], [1, 2], [1, 3]]
    (∃ first : Reading (List Combination), first.consumed ≤ 2 ∧
      prune (Source.listed pairs) (.whole 3) (some (.whole 2)) =
        some (first.pruned (.whole 3) (some (.whole 2)))) ∧
      prune (Source.listed pairs) (.whole 3) (some (.whole 2)) =
        some ⟨.ok ⟨[[0, 1], [0, 2]], .whole 3, some (.whole 2), 2⟩, 2⟩ ∧
      prune (Source.listed pairs) (.whole 3) (some (.whole 3)) =
        some ⟨.ok ⟨pairs, .whole 3, some (.whole 3), 5⟩, 5⟩ ∧
      (¬ ∃ first, (Source.listed pairs).Reads pairs (some 3) first ∧
        prune (Source.listed pairs) (.whole 3) (some (.whole 3)) =
          some (first.pruned (.whole 3) (some (.whole 3)))) ∧
      prune (endlessly [0, 1]) (.whole 3) (some (.whole 3)) = none := by
  intro pairs
  obtain ⟨first, -, hfew, htwo⟩ :=
    ((prune_reads (Source.listed pairs) (.whole 3)).2 2 (by decide)).2.1 rfl (by decide)
  obtain ⟨hdrained, -⟩ :=
    ((prune_reads (Source.listed pairs) (.whole 3)).2 3 (by decide)).2.2 rfl
  obtain ⟨hendless, -⟩ := ((prune_reads (endlessly [0, 1]) (.whole 3)).2 3 (by decide)).2.2 rfl
  obtain ⟨last, hpairs, hend⟩ := Source.lists_listed pairs
  have hall : prune (Source.listed pairs) (.whole 3) (some (.whole 3)) =
      some ⟨.ok ⟨pairs, .whole 3, some (.whole 3), 5⟩, 5⟩ :=
    (hdrained _).mpr ⟨_, .ended hpairs nofun hend, rfl⟩
  refine ⟨⟨first, Int.ofNat_le.mp hfew, htwo⟩, rfl, hall, fun ⟨first, hfirst, hprune⟩ => ?_, ?_⟩
  · have hfew := hfirst.consumed_le
    rw [hall] at hprune
    have hfive : 5 = first.consumed := congrArg Reading.consumed (Option.some.inj hprune)
    omega
  · refine Option.eq_none_iff_forall_ne_some.mpr fun reading h => ?_
    obtain ⟨whole, hwhole, -⟩ := (hendless reading).mp h
    cases hwhole with
    | full _ hlimit => cases hlimit
    | ended _ _ hend => cases hend
    | refused _ _ hfault => cases hfault

end QuorumTree
