import QuorumTree.Aggregation.Untrusted
import QuorumTree.Proofs.Runs

/-!
What an action answers. A cache that holds only what the primitive makes changes no answer, and
every action keeps such a cache as it is or adds what the primitive made; so an action can be
replaced by the plain computation that it comes to.
-/

namespace QuorumTree

/-- Every entry is what the primitive makes of its keys. -/
def Cache.IsFaithful (primitive : Primitive) (cache : Cache) : Prop :=
  ∀ keys made, cache.find? keys = some made → primitive keys = .ok made

/-- The cache of the ledger, if there is one, holds only what the primitive makes. -/
def Ledger.IsFaithful (primitive : Primitive) (ledger : Ledger) : Prop :=
  ∀ cache, ledger.cache = some cache → cache.IsFaithful primitive

variable {primitive : Primitive} {α β : Type}

namespace Cache.IsFaithful

theorem put {cache : Cache} (h : cache.IsFaithful primitive) {keys : List PublicKey}
    {made : Aggregate} (hmade : primitive keys = .ok made) :
    (cache.put keys made).1 = made ∧ (cache.put keys made).2.IsFaithful primitive := by
  unfold Cache.put
  split
  · next found hfound =>
      have hsame := h keys found hfound
      rw [hmade, Except.ok.injEq] at hsame
      exact ⟨hsame.symm, h⟩
  · split_ifs
    · exact ⟨rfl, h⟩
    · refine ⟨rfl, fun other found hfound => ?_⟩
      simp only [find?, List.lookup_cons] at hfound
      split at hfound
      · next hkeys =>
          rw [beq_iff_eq] at hkeys
          cases hfound
          rwa [hkeys]
      · exact h other found hfound

end Cache.IsFaithful

namespace Ledger

theorem isFaithful_withCache_none : (withCache none).IsFaithful primitive := by
  intro cache h
  cases h

/-- A cache that was just made holds nothing. -/
theorem isFaithful_withCache_create {limit : Number} {cache : Cache}
    (h : Cache.create limit = .ok cache) : (withCache (some cache)).IsFaithful primitive := by
  rintro _ ⟨⟩ keys made hfound
  unfold Cache.create at h
  split_ifs at h
  cases h
  cases hfound

theorem isFaithful_of_cache_eq {ledger after : Ledger} (h : ledger.IsFaithful primitive)
    (hcache : after.cache = ledger.cache) : after.IsFaithful primitive := by
  intro cache hafter
  exact h cache (hcache ▸ hafter)

theorem IsFaithful.get {ledger : Ledger} (h : ledger.IsFaithful primitive)
    (keys : List PublicKey) :
    (∀ found, (ledger.get keys).1 = some found → primitive keys = .ok found) ∧
      (ledger.get keys).2.IsFaithful primitive := by
  unfold Ledger.get
  cases hcache : ledger.cache with
  | none =>
      refine ⟨fun found hfound => ?_, h⟩
      cases hfound
  | some cache =>
      have hfind := h cache hcache
      simp only [Cache.get]
      cases hfound : cache.find? keys with
      | some made =>
          refine ⟨fun found heq => ?_, fun other hother => ?_⟩
          · cases heq
            exact hfind keys made hfound
          · cases hother
            exact hfind
      | none =>
          refine ⟨fun found heq => ?_, fun other hother => ?_⟩
          · cases heq
          · cases hother
            exact hfind

theorem IsFaithful.put {ledger : Ledger} (h : ledger.IsFaithful primitive)
    {keys : List PublicKey} {made : Aggregate} (hmade : primitive keys = .ok made) :
    (ledger.put keys made).1 = made ∧ (ledger.put keys made).2.IsFaithful primitive := by
  unfold Ledger.put
  cases hcache : ledger.cache with
  | none => exact ⟨rfl, h⟩
  | some cache =>
      obtain ⟨hkept, hafter⟩ := (h cache hcache).put hmade
      refine ⟨hkept, fun other hother => ?_⟩
      cases hother
      exact hafter

end Ledger

/-- On every faithful ledger the action gives this answer and leaves a faithful ledger. -/
def Answers (primitive : Primitive) (action : Action α) (answer : Except Fault α) : Prop :=
  ∀ ledger : Ledger, ledger.IsFaithful primitive →
    ∃ after : Ledger, action.run ledger = (answer, after) ∧ after.IsFaithful primitive

namespace Answers

theorem pure (value : α) : Answers primitive (pure value) (.ok value) :=
  fun ledger h => ⟨ledger, rfl, h⟩

theorem lift (answer : Except Fault α) :
    Answers primitive (liftM answer : Action α) answer :=
  fun ledger h => ⟨ledger, rfl, h⟩

theorem bind {action : Action α} {answer : Except Fault α} {next : α → Action β}
    {nextAnswer : α → Except Fault β} (h : Answers primitive action answer)
    (hnext : ∀ value, answer = .ok value → Answers primitive (next value) (nextAnswer value)) :
    Answers primitive (action >>= next) (answer >>= nextAnswer) := by
  intro ledger hledger
  obtain ⟨between, hrun, hbetween⟩ := h ledger hledger
  cases answer with
  | error fault =>
      refine ⟨between, ?_, hbetween⟩
      rw [run_bind, hrun]
      rfl
  | ok value =>
      obtain ⟨after, hafter, hfaithful⟩ := hnext value rfl between hbetween
      refine ⟨after, ?_, hfaithful⟩
      rw [run_bind, hrun]
      exact hafter

theorem modify {change : Ledger → Ledger}
    (hcache : ∀ ledger, (change ledger).cache = ledger.cache) :
    Answers primitive (modify change : Action Unit) (.ok ()) :=
  fun ledger h => ⟨change ledger, rfl, Ledger.isFaithful_of_cache_eq h (hcache ledger)⟩

/-- What is read of the ledger may differ as long as the answer does not. -/
theorem modifyGet_bind {read : Ledger → β × Ledger} {next : β → Action α}
    {answer : Except Fault α}
    (h : ∀ ledger : Ledger, ledger.IsFaithful primitive →
      (read ledger).2.IsFaithful primitive ∧ Answers primitive (next (read ledger).1) answer) :
    Answers primitive (modifyGet read >>= next) answer := by
  intro ledger hledger
  obtain ⟨hbetween, hnext⟩ := h ledger hledger
  exact hnext _ hbetween

/-- A computation that is told by its answer on a faithful ledger. -/
theorem eq_of_run {action : Action α} {answer given : Except Fault α}
    (h : Answers primitive action answer) {ledger after : Ledger}
    (hledger : ledger.IsFaithful primitive) (hrun : action.run ledger = (given, after)) :
    answer = given ∧ after.IsFaithful primitive := by
  obtain ⟨found, hfound, hfaithful⟩ := h ledger hledger
  rw [hrun, Prod.mk.injEq] at hfound
  obtain ⟨rfl, rfl⟩ := hfound
  exact ⟨rfl, hfaithful⟩

theorem run_fst {action : Action α} {answer : Except Fault α} (h : Answers primitive action answer)
    {ledger : Ledger} (hledger : ledger.IsFaithful primitive) : (action.run ledger).1 = answer := by
  obtain ⟨after, hrun, -⟩ := h ledger hledger
  rw [hrun]

end Answers

end QuorumTree
