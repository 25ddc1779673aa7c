import QuorumTree.Proofs.Aggregation.Quorums

/-!
Calls that share a cache. A call of `aggregate` takes up to three steps, which are to look its keys
up, to make their aggregate, and to write that down; between them any other call may take its own
steps, and the cache may be emptied. The invariant speaks of one call and of the cache only: what a
call carries belongs to its own keys, and what the cache holds was made by the primitive. So it is
kept by every step in any order, and no call can tell that there are others.
-/

namespace QuorumTree

/-- How far a call of `aggregate` has got. -/
inductive Call
  | waiting (keys : Except Fault (List PublicKey))
  | missed (keys : List PublicKey)
  | made (keys : List PublicKey) (aggregate : Aggregate)
  | answered (answer : Except Fault Aggregate)

/-- Calls on their way, with the ledger that they share. -/
structure Traffic (κ : Type) where
  ledger : Ledger
  calls : κ → Call

/-- What may happen next: a step of one of the calls, or that the cache is emptied. -/
inductive Event (κ : Type)
  | advance (index : κ)
  | clear
  deriving DecidableEq

variable {primitive : Primitive} {κ ι : Type}

namespace Call

/-- The next step of a call. Keys that were not found end it, and so does a hit or a refusal. -/
def step (primitive : Primitive) : Call → Ledger → Call × Ledger
  | waiting (.error fault), ledger => (answered (.error fault), ledger)
  | waiting (.ok keys), ledger =>
    let (read, ledger) := (ledger.call keys).get keys
    match read with
    | some found => (answered (.ok found), ledger)
    | none => (missed keys, ledger)
  | missed keys, ledger =>
    match primitive keys with
    | .error fault => (answered (.error fault.ofPrimitive), ledger)
    | .ok aggregate => (made keys aggregate, ledger)
  | made keys aggregate, ledger =>
    let (kept, ledger) := ledger.put keys aggregate
    (answered (.ok kept), ledger)
  | answered answer, ledger => (answered answer, ledger)

/-- The most steps that a call may still take. -/
def remaining : Call → Nat
  | waiting _ => 3
  | missed _ => 2
  | made _ _ => 1
  | answered _ => 0

theorem remaining_eq_zero_iff {call : Call} :
    call.remaining = 0 ↔ ∃ answer, call = answered answer := by
  cases call <;> simp [remaining]

theorem remaining_step (call : Call) (ledger : Ledger) :
    (call.step primitive ledger).1.remaining ≤ call.remaining - 1 := by
  cases call with
  | waiting keys =>
      cases keys with
      | error fault => exact Nat.zero_le _
      | ok keys =>
          dsimp only [step]
          split <;> simp [remaining]
  | missed keys =>
      simp only [step]
      split <;> simp [remaining]
  | made keys aggregate => exact Nat.zero_le _
  | answered answer => exact Nat.zero_le _

theorem step_waiting_found {keys : List PublicKey} {ledger : Ledger} {found : Aggregate}
    (h : ((ledger.call keys).get keys).1 = some found) :
    (waiting (.ok keys)).step primitive ledger =
      (answered (.ok found), ((ledger.call keys).get keys).2) := by
  simp only [step, h]

theorem step_waiting_missed {keys : List PublicKey} {ledger : Ledger}
    (h : ((ledger.call keys).get keys).1 = none) :
    (waiting (.ok keys)).step primitive ledger =
      (missed keys, ((ledger.call keys).get keys).2) := by
  simp only [step, h]

theorem step_missed_refused {keys : List PublicKey} {fault : Fault}
    (h : primitive keys = .error fault) (ledger : Ledger) :
    (missed keys).step primitive ledger = (answered (.error fault.ofPrimitive), ledger) := by
  simp only [step, h]

theorem step_missed_made {keys : List PublicKey} {aggregate : Aggregate}
    (h : primitive keys = .ok aggregate) (ledger : Ledger) :
    (missed keys).step primitive ledger = (made keys aggregate, ledger) := by
  simp only [step, h]

/-- A call for these keys, which carries nothing that was not made of them. -/
def IsFor (primitive : Primitive) (request : Except Fault (List PublicKey)) : Call → Prop
  | waiting keys => keys = request
  | missed keys => request = .ok keys
  | made keys aggregate => request = .ok keys ∧ primitive keys = .ok aggregate
  | answered answer => answer = request >>= aggregateOf primitive

end Call

/-! ### The cache

What it holds, entry by entry, and how much. -/

/-- Every entry was made by the primitive, and there are no more than the limit allows. -/
structure Cache.IsCoherent (primitive : Primitive) (limit : Option Nat) (cache : Cache) :
    Prop where
  maxEntries_eq : cache.maxEntries = limit
  made : ∀ entry ∈ cache.entries, primitive entry.1 = .ok entry.2
  size_le : ∀ bound, limit = some bound → cache.size ≤ bound

/-- The cache of the ledger, if there is one, is coherent. -/
def Ledger.IsCoherent (primitive : Primitive) (limit : Option Nat) (ledger : Ledger) : Prop :=
  ∀ cache, ledger.cache = some cache → cache.IsCoherent primitive limit

namespace Cache.IsCoherent

variable {limit : Option Nat} {cache : Cache}

theorem isFaithful (h : cache.IsCoherent primitive limit) : cache.IsFaithful primitive := by
  intro keys made hfound
  obtain ⟨before, after, hentries, -⟩ := List.lookup_eq_some_iff.mp hfound
  refine h.made (keys, made) ?_
  rw [hentries]
  exact List.mem_append_right before List.mem_cons_self

theorem create {maxEntries : Nat} (h : Cache.create (.whole maxEntries) = .ok cache) :
    cache.IsCoherent primitive (some maxEntries) := by
  unfold Cache.create at h
  split_ifs at h
  cases h
  refine ⟨rfl, ?_, fun bound _ => Nat.zero_le bound⟩
  intro entry hentry
  cases hentry

theorem clear (h : cache.IsCoherent primitive limit) : cache.clear.IsCoherent primitive limit := by
  refine ⟨h.maxEntries_eq, ?_, fun bound _ => Nat.zero_le bound⟩
  intro entry hentry
  cases hentry

theorem get (h : cache.IsCoherent primitive limit) (keys : List PublicKey) :
    (cache.get keys).2.IsCoherent primitive limit := by
  unfold Cache.get
  split
  · exact ⟨h.maxEntries_eq, h.made, h.size_le⟩
  · exact ⟨h.maxEntries_eq, h.made, h.size_le⟩

theorem put (h : cache.IsCoherent primitive limit) {keys : List PublicKey} {made : Aggregate}
    (hmade : primitive keys = .ok made) :
    (cache.put keys made).2.IsCoherent primitive limit := by
  unfold Cache.put
  split
  · exact h
  split_ifs with hfull
  · exact h
  refine ⟨h.maxEntries_eq, ?_, ?_⟩
  · intro entry hentry
    rcases List.mem_cons.mp hentry with rfl | hold
    · exact hmade
    · exact h.made entry hold
  · intro bound hbound
    -- There is room for one more, or else nothing would have been written.
    have hroom : ¬ bound ≤ cache.size := by
      simpa [isFull, h.maxEntries_eq, hbound] using hfull
    change cache.entries.length + 1 ≤ bound
    exact Nat.lt_of_not_le hroom

end Cache.IsCoherent

namespace Ledger.IsCoherent

variable {limit : Option Nat} {ledger : Ledger}

theorem isFaithful (h : ledger.IsCoherent primitive limit) : ledger.IsFaithful primitive :=
  fun cache hcache => (h cache hcache).isFaithful

theorem call (h : ledger.IsCoherent primitive limit) (keys : List PublicKey) :
    (ledger.call keys).IsCoherent primitive limit := h

theorem get (h : ledger.IsCoherent primitive limit) (keys : List PublicKey) :
    (ledger.get keys).2.IsCoherent primitive limit := by
  unfold Ledger.get
  cases hcache : ledger.cache with
  | none => exact h
  | some cache =>
      intro after hafter
      cases hafter
      exact (h cache hcache).get keys

theorem put (h : ledger.IsCoherent primitive limit) {keys : List PublicKey} {made : Aggregate}
    (hmade : primitive keys = .ok made) : (ledger.put keys made).2.IsCoherent primitive limit := by
  unfold Ledger.put
  cases hcache : ledger.cache with
  | none => exact h
  | some cache =>
      intro after hafter
      cases hafter
      exact (h cache hcache).put hmade

end Ledger.IsCoherent

/-- A ledger with a new cache for so many entries, if any. -/
theorem Ledger.isCoherent_withCache {limit : Option Nat} {memory : Option Cache}
    (h : limit.mapM (fun bound => Cache.create (.whole bound)) = .ok memory) :
    (withCache memory).IsCoherent primitive limit := by
  intro cache hcache
  cases limit with
  | none =>
      cases h
      cases hcache
  | some bound =>
      change some <$> Cache.create (.whole bound) = .ok memory at h
      cases hcreate : Cache.create (.whole bound) with
      | error fault =>
          rw [hcreate] at h
          cases h
      | ok created =>
          rw [hcreate] at h
          cases h
          cases hcache
          exact .create hcreate

namespace Call.IsFor

variable {limit : Option Nat} {ledger : Ledger} {request : Except Fault (List PublicKey)}
  {call : Call}

/-- A step leaves a call one for the same keys, and the ledger coherent. -/
theorem step (h : call.IsFor primitive request) (hledger : ledger.IsCoherent primitive limit) :
    (call.step primitive ledger).1.IsFor primitive request ∧
      (call.step primitive ledger).2.IsCoherent primitive limit := by
  cases call with
  | waiting given =>
      change given = request at h
      subst h
      cases given with
      | error fault => exact ⟨rfl, hledger⟩
      | ok keys =>
          have hbetween := (hledger.call keys).get keys
          obtain ⟨hmade, -⟩ := (hledger.call keys).isFaithful.get keys
          cases hread : ((ledger.call keys).get keys).1 with
          | some found =>
              rw [step_waiting_found hread]
              refine ⟨?_, hbetween⟩
              change Except.ok found = aggregateOf primitive keys
              exact (aggregateOf_eq_ok_iff.mpr (hmade found hread)).symm
          | none =>
              rw [step_waiting_missed hread]
              exact ⟨rfl, hbetween⟩
  | missed keys =>
      cases h
      cases hmade : primitive keys with
      | error fault =>
          rw [step_missed_refused hmade]
          refine ⟨?_, hledger⟩
          change Except.error fault.ofPrimitive = aggregateOf primitive keys
          rw [aggregateOf, hmade]
          rfl
      | ok aggregate =>
          rw [step_missed_made hmade]
          exact ⟨⟨rfl, hmade⟩, hledger⟩
  | made keys aggregate =>
      obtain ⟨rfl, hmade⟩ := h
      obtain ⟨hkept, -⟩ := hledger.isFaithful.put hmade
      refine ⟨?_, hledger.put hmade⟩
      change Except.ok (ledger.put keys aggregate).1 = aggregateOf primitive keys
      rw [hkept]
      exact (aggregateOf_eq_ok_iff.mpr hmade).symm
  | answered answer => exact ⟨h, hledger⟩

end Call.IsFor

namespace Traffic

/-- Calls that all wait for their turn, beside a ledger with the given cache. -/
def start (memory : Option Cache) (requests : κ → Except Fault (List PublicKey)) : Traffic κ :=
  ⟨.withCache memory, fun index => .waiting (requests index)⟩

/-- Every call is for its own keys, and the cache is coherent. -/
structure IsSound (primitive : Primitive) (limit : Option Nat)
    (requests : κ → Except Fault (List PublicKey)) (traffic : Traffic κ) : Prop where
  ledger : traffic.ledger.IsCoherent primitive limit
  isFor : ∀ index, (traffic.calls index).IsFor primitive (requests index)

variable {limit : Option Nat} {requests : κ → Except Fault (List PublicKey)} {traffic : Traffic κ}

theorem isSound_start {memory : Option Cache}
    (h : limit.mapM (fun bound => Cache.create (.whole bound)) = .ok memory) :
    (start memory requests).IsSound primitive limit requests :=
  ⟨Ledger.isCoherent_withCache h, fun _ => rfl⟩

/-- What a call answers is known from its keys alone. -/
theorem IsSound.answer_eq (h : traffic.IsSound primitive limit requests) {index : κ}
    {answer : Except Fault Aggregate} (hcall : traffic.calls index = .answered answer) :
    answer = requests index >>= aggregateOf primitive := by
  have hfor := h.isFor index
  rwa [hcall] at hfor

variable [DecidableEq κ]

def step (primitive : Primitive) (traffic : Traffic κ) : Event κ → Traffic κ
  | .advance index =>
    let (call, ledger) := (traffic.calls index).step primitive traffic.ledger
    ⟨ledger, Function.update traffic.calls index call⟩
  | .clear =>
    ⟨{ traffic.ledger with cache := traffic.ledger.cache.map Cache.clear }, traffic.calls⟩

def run (primitive : Primitive) (traffic : Traffic κ) (events : List (Event κ)) : Traffic κ :=
  events.foldl (step primitive) traffic

/-- Three steps of one call with nothing in between. -/
theorem run_three {ledger first second third : Ledger} {calls : κ → Call} {index : κ}
    {call next : Call} {answer : Except Fault Aggregate}
    (hfirst : (calls index).step primitive ledger = (call, first))
    (hsecond : call.step primitive first = (next, second))
    (hthird : next.step primitive second = (.answered answer, third)) :
    run primitive ⟨ledger, calls⟩ [.advance index, .advance index, .advance index] =
      ⟨third, Function.update calls index (.answered answer)⟩ := by
  simp only [run, List.foldl, step, hfirst, Function.update_self, hsecond, hthird,
    Function.update_idem]

/-- A call that nothing comes between is `aggregate`, with its answer and all it leaves behind. -/
theorem run_alone (traffic : Traffic κ) (index : κ) (keys : List PublicKey)
    (h : traffic.calls index = .waiting (.ok keys)) :
    ∃ answer next, (aggregate primitive keys).run traffic.ledger = (answer, next) ∧
      traffic.run primitive [.advance index, .advance index, .advance index] =
        ⟨next, Function.update traffic.calls index (.answered answer)⟩ := by
  obtain ⟨ledger, calls⟩ := traffic
  change calls index = _ at h
  obtain ⟨found, hread, hrun⟩ | ⟨fault, hread, hrefused, hrun⟩ | ⟨made, hread, hmade, hrun⟩ :=
    run_aggregate_cases primitive keys ledger
  · have hfirst : (calls index).step primitive ledger =
        (.answered (.ok found), ((ledger.call keys).get keys).2) := by
      rw [h, Call.step_waiting_found hread]
    exact ⟨_, _, hrun, run_three hfirst rfl rfl⟩
  · have hfirst : (calls index).step primitive ledger =
        (.missed keys, ((ledger.call keys).get keys).2) := by
      rw [h, Call.step_waiting_missed hread]
    exact ⟨_, _, hrun, run_three hfirst (Call.step_missed_refused hrefused _) rfl⟩
  · have hfirst : (calls index).step primitive ledger =
        (.missed keys, ((ledger.call keys).get keys).2) := by
      rw [h, Call.step_waiting_missed hread]
    exact ⟨_, _, hrun, run_three hfirst (Call.step_missed_made hmade _) rfl⟩

theorem IsSound.step (h : traffic.IsSound primitive limit requests) (event : Event κ) :
    (traffic.step primitive event).IsSound primitive limit requests := by
  cases event with
  | clear =>
      refine ⟨fun cache hcache => ?_, h.isFor⟩
      obtain ⟨before, hbefore, rfl⟩ := Option.map_eq_some_iff.mp hcache
      exact (h.ledger before hbefore).clear
  | advance index =>
      obtain ⟨hcall, hledger⟩ := (h.isFor index).step h.ledger
      refine ⟨hledger, fun other => ?_⟩
      change (Function.update traffic.calls index _ other).IsFor primitive _
      rcases eq_or_ne other index with rfl | hother
      · rwa [Function.update_self]
      · rw [Function.update_of_ne hother]
        exact h.isFor other

theorem IsSound.run (h : traffic.IsSound primitive limit requests) (events : List (Event κ)) :
    (traffic.run primitive events).IsSound primitive limit requests := by
  induction events generalizing traffic with
  | nil => exact h
  | cons event events ih => exact ih (h.step event)

theorem remaining_step_le (traffic : Traffic κ) (event : Event κ) (index : κ) :
    ((traffic.step primitive event).calls index).remaining ≤ (traffic.calls index).remaining := by
  cases event with
  | clear => exact le_rfl
  | advance other =>
      change (Function.update traffic.calls other _ index).remaining ≤ _
      rcases eq_or_ne index other with rfl | hother
      · rw [Function.update_self]
        exact (Call.remaining_step _ _).trans (Nat.sub_le _ _)
      · rw [Function.update_of_ne hother]

theorem remaining_advance_le (traffic : Traffic κ) (index : κ) :
    ((traffic.step primitive (.advance index)).calls index).remaining ≤
      (traffic.calls index).remaining - 1 := by
  change (Function.update traffic.calls index _ index).remaining ≤ _
  rw [Function.update_self]
  exact Call.remaining_step _ _

/-- What a call still has to do goes down with each step of its own. -/
theorem remaining_run_le (traffic : Traffic κ) (events : List (Event κ)) (index : κ) :
    ((traffic.run primitive events).calls index).remaining ≤
      (traffic.calls index).remaining - events.count (.advance index) := by
  induction events generalizing traffic with
  | nil => exact le_rfl
  | cons event events ih =>
      have hrest := ih (traffic.step primitive event)
      change ((traffic.step primitive event).run primitive events |>.calls index).remaining ≤ _
      rcases eq_or_ne event (.advance index) with rfl | hother
      · have hfirst : ((traffic.step primitive (.advance index)).calls index).remaining ≤ _ :=
          remaining_advance_le traffic index
        rw [List.count_cons_self]
        omega
      · have hfirst : ((traffic.step primitive event).calls index).remaining ≤ _ :=
          remaining_step_le traffic event index
        rw [List.count_cons_of_ne hother]
        omega

end Traffic

end QuorumTree
