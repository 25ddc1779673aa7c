import QuorumTree.Quorum.Combination

/-!
Sources: sequences that are produced one item at a time, as far as they are read. A source may end,
be refused after any number of items, or go on forever. Reading counts the items that it takes.
-/

namespace QuorumTree

/-- A sequence by what is done for its next item: it ends, is refused, or hands the item over and
goes on from another state. -/
structure Source (α : Type) where
  State : Type
  start : State
  next : State → Except Fault (Option (α × State))

/-- What reading came to, and how many items it took from the source. -/
structure Reading (β : Type) where
  answer : Except Fault β
  consumed : Nat

namespace Source

variable {α : Type} {source : Source α}

/-- How far a source has been read: the state that it is in, the items taken, the last one first,
and how many there were. -/
structure Progress (source : Source α) where
  state : source.State
  taken : List α
  pulled : Nat

namespace Progress

def begin (source : Source α) : Progress source :=
  ⟨source.start, [], 0⟩

/-- Asks the source for its next item, and counts the item that it hands over. -/
def pull (progress : Progress source) : Except Fault (Option (Progress source)) := do
  match ← source.next progress.state with
  | some (item, state) => return some ⟨state, item :: progress.taken, progress.pulled + 1⟩
  | none => return none

def close (progress : Progress source) : Reading (List α) :=
  ⟨.ok progress.taken.reverse, progress.pulled⟩

def refuse (progress : Progress source) (fault : Fault) : Reading (List α) :=
  ⟨.error fault, progress.pulled⟩

/-- Takes as many more items as there are, up to a count. After that many the source is not asked
again. -/
def take : Nat → Progress source → Reading (List α)
  | 0, progress => progress.close
  | count + 1, progress =>
    match progress.pull with
    | .ok (some further) => take count further
    | .ok none => progress.close
    | .error fault => progress.refuse fault

/-- Takes all items that are left. Nothing comes of reading a source that never ends. -/
def drain (progress : Progress source) : Option (Reading (List α)) :=
  match progress.pull with
  | .ok (some further) => further |>.drain
  | .ok none => some progress.close
  | .error fault => some (progress.refuse fault)
partial_fixpoint

/-! What comes of asking for the next item, by what the source does for it. -/

section

variable {progress : Progress source} {item : α} {state : source.State} {fault : Fault}

theorem pull_of_item (h : source.next progress.state = .ok (some (item, state))) :
    progress.pull = .ok (some ⟨state, item :: progress.taken, progress.pulled + 1⟩) := by
  rw [pull, h]
  rfl

theorem pull_of_end (h : source.next progress.state = .ok none) : progress.pull = .ok none := by
  rw [pull, h]
  rfl

theorem pull_of_refusal (h : source.next progress.state = .error fault) :
    progress.pull = .error fault := by
  rw [pull, h]
  rfl

theorem take_of_item (h : source.next progress.state = .ok (some (item, state))) (count : Nat) :
    progress.take (count + 1) =
      take count ⟨state, item :: progress.taken, progress.pulled + 1⟩ := by
  rw [take, pull_of_item h]

theorem take_of_end (h : source.next progress.state = .ok none) (count : Nat) :
    progress.take count = progress.close := by
  cases count with
  | zero => rfl
  | succ count => rw [take, pull_of_end h]

theorem take_of_refusal (h : source.next progress.state = .error fault) (count : Nat) :
    progress.take (count + 1) = progress.refuse fault := by
  rw [take, pull_of_refusal h]

theorem drain_of_item (h : source.next progress.state = .ok (some (item, state))) :
    progress.drain = drain ⟨state, item :: progress.taken, progress.pulled + 1⟩ := by
  rw [drain, pull_of_item h]

theorem drain_of_end (h : source.next progress.state = .ok none) :
    progress.drain = some progress.close := by
  rw [drain, pull_of_end h]

theorem drain_of_refusal (h : source.next progress.state = .error fault) :
    progress.drain = some (progress.refuse fault) := by
  rw [drain, pull_of_refusal h]

end

end Progress

/-- Reads a source up to a limit, or to its end. -/
def read (source : Source α) (limit : Option Nat) : Option (Reading (List α)) :=
  match limit with
  | some count => some ((Progress.begin source).take count)
  | none => (Progress.begin source).drain

/-! ### What a source hands over -/

/-- From one state to another the source hands over the items listed. -/
inductive Yields (source : Source α) : source.State → List α → source.State → Prop
  | nil (state : source.State) : Yields source state [] state
  | cons {state further last : source.State} {item : α} {items : List α}
      (hnext : source.next state = .ok (some (item, further)))
      (hrest : Yields source further items last) : Yields source state (item :: items) last

/-- From the state on the source hands over the items listed, and ends. -/
def Lists (source : Source α) (state : source.State) (items : List α) : Prop :=
  ∃ last, source.Yields state items last ∧ source.next last = .ok none

theorem Yields.drain_eq {state last : source.State} {items : List α}
    (h : source.Yields state items last) (taken : List α) (pulled : Nat) :
    (Progress.mk state taken pulled).drain =
      (Progress.mk last (items.reverse ++ taken) (pulled + items.length)).drain := by
  induction h generalizing taken pulled with
  | nil => rfl
  | cons hnext _ ih =>
      refine (Progress.drain_of_item hnext).trans ((ih _ _).trans ?_)
      simp only [List.reverse_cons, List.append_assoc, List.cons_append, List.nil_append,
        List.length_cons, Nat.add_assoc, Nat.add_comm 1]

/-- Draining a source that ends gives its items, each of them taken once. -/
theorem Lists.drain_eq {items : List α} (h : source.Lists source.start items) :
    (Progress.begin source).drain = some ⟨.ok items, items.length⟩ := by
  obtain ⟨last, hitems, hend⟩ := h
  refine (hitems.drain_eq [] 0).trans ((Progress.drain_of_end hend).trans ?_)
  simp [Progress.close]

end Source

/-- A source that comes to an end, or is refused, when all of it is read. -/
structure FiniteSource (α : Type) extends Source α where
  ends : (Source.Progress.begin toSource).drain.isSome

namespace FiniteSource

variable {α : Type}

theorem isSome_read (source : FiniteSource α) (limit : Option Nat) :
    (source.toSource.read limit).isSome := by
  cases limit with
  | none => exact source.ends
  | some count => rfl

def read (source : FiniteSource α) (limit : Option Nat) : Reading (List α) :=
  (source.toSource.read limit).get (source.isSome_read limit)

end FiniteSource

namespace Source

variable {α : Type}

/-! ### Lists as sources -/

def listed (items : List α) : Source α where
  State := List α
  start := items
  next
    | [] => .ok none
    | item :: rest => .ok (some (item, rest))

theorem lists_listed (items : List α) : (listed items).Lists items items := by
  refine ⟨[], ?_, rfl⟩
  suffices h : ∀ rest : List α, (listed items).Yields rest rest [] from h items
  intro rest
  induction rest with
  | nil => exact .nil _
  | cons item rest ih => exact .cons rfl ih

def ofList (items : List α) : FiniteSource α where
  toSource := listed items
  ends := by
    rw [(lists_listed items).drain_eq]
    rfl

/-- A source that is refused as soon as an item is asked for. -/
def refused (fault : Fault) : FiniteSource α where
  State := Unit
  start := ()
  next _ := .error fault
  ends := by
    rw [Progress.drain_of_refusal rfl]
    rfl

end Source

/-! ### Quorums as sources -/

namespace Combination

/-- The combination that comes next in lexicographic order among those of indices below `n`. -/
def successor (n : Nat) : Combination → Option Combination
  | [] => none
  | index :: rest =>
    match successor n rest with
    | some next => some (index :: next)
    | none =>
      if index + 1 + rest.length < n then some (List.range' (index + 1) (rest.length + 1)) else none

theorem length_of_successor {n : Nat} {combination next : Combination}
    (h : successor n combination = some next) : next.length = combination.length := by
  induction combination generalizing next with
  | nil => cases h
  | cons index rest ih =>
      rw [successor] at h
      split at h
      · next hrest =>
          cases h
          rw [List.length_cons, List.length_cons, ih hrest]
      · split at h
        · cases h
          rw [List.length_range', List.length_cons]
        · cases h

/-- Each of the combinations listed is followed by its successor, from the first one to the last. -/
inductive Follow (n : Nat) : Option Combination → List Combination → Option Combination → Prop
  | nil (state : Option Combination) : Follow n state [] state
  | cons {combination : Combination} {items : List Combination} {last : Option Combination}
      (h : Follow n (successor n combination) items last) :
      Follow n (some combination) (combination :: items) last

variable {n : Nat}

theorem Follow.append {first middle last : Option Combination} {items others : List Combination}
    (h : Follow n first items middle) (hothers : Follow n middle others last) :
    Follow n first (items ++ others) last := by
  induction h with
  | nil => exact hothers
  | cons _ ih => exact .cons (ih hothers)

/-- An index in front stays as long as what follows it has a successor. -/
theorem Follow.map_cons {combination : Combination} {items : List Combination}
    (h : Follow n (some combination) items none) (index : Nat) :
    Follow n (some (index :: combination)) (items.map (index :: ·))
      (if index + 1 + combination.length < n then
        some (List.range' (index + 1) (combination.length + 1)) else none) := by
  induction items generalizing combination with
  | nil => cases h
  | cons item items ih =>
      obtain _ | hrest := h
      refine .cons ?_
      rw [successor]
      cases hsuccessor : successor n item with
      | none =>
          rw [hsuccessor] at hrest
          cases hrest
          exact .nil _
      | some next =>
          rw [hsuccessor] at hrest
          rw [← length_of_successor hsuccessor]
          exact ih hrest

/-- From the least of them on, the combinations of the `pool` indices from `next` on follow each
other. The induction is on the pool, as the recursion of `choose` is. -/
theorem follow_choose {pool m next : Nat} (hpool : next + pool = n) (hm : m ≤ pool) :
    Follow n (some (List.range' next m)) (choose m (List.range' next pool)) none := by
  induction pool generalizing m next with
  | zero =>
      obtain rfl := Nat.le_zero.mp hm
      exact .cons (.nil _)
  | succ pool ih =>
      cases m with
      | zero =>
          rw [choose]
          exact .cons (.nil _)
      | succ m =>
          have hrest : Follow n (some (List.range' (next + 1) m))
              (choose m (List.range' (next + 1) pool)) none := ih (by omega) (by omega)
          have hopening := hrest.map_cons next
          rw [List.length_range'] at hopening
          rw [List.range'_succ, List.range'_succ, choose_succ_cons]
          refine hopening.append ?_
          by_cases hfits : m < pool
          · rw [if_pos (by omega)]
            exact ih (by omega) hfits
          · rw [if_neg (by omega), choose_eq_nil (by rw [List.length_range']; omega)]
            exact .nil _

/-- The combinations of indices below `n` from a given one on. -/
def source (n : Nat) (first : Combination) : Source Combination where
  State := Option Combination
  start := some first
  next state := .ok (state.map fun combination => (combination, successor n combination))

theorem Follow.yields {first : Combination} {state last : Option Combination}
    {items : List Combination} (h : Follow n state items last) :
    (source n first).Yields state items last := by
  induction h with
  | nil => exact .nil _
  | cons _ ih => exact .cons rfl ih

theorem source_lists_all (t : Threshold) :
    (source t.n (List.range t.m)).Lists (some (List.range t.m)) (all t) := by
  refine ⟨none, Follow.yields ?_, rfl⟩
  rw [all, List.range_eq_range', List.range_eq_range']
  exact follow_choose (Nat.zero_add _) t.le

end Combination

namespace Source

def quorums (t : Threshold) : FiniteSource Combination where
  toSource := Combination.source t.n (List.range t.m)
  ends := by
    rw [(Combination.source_lists_all t).drain_eq]
    rfl

/-- The quorums of a threshold that is looked at when the first of them is asked for. -/
def ofThreshold [Machine] (threshold : Except Fault Threshold) : FiniteSource Combination :=
  match threshold >>= Combination.listable with
  | .ok t => quorums t
  | .error fault => refused fault

end Source

end QuorumTree
