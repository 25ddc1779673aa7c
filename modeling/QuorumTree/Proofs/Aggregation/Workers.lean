import Mathlib.Algebra.BigOperators.Group.Finset.Basic
import Mathlib.Algebra.Order.BigOperators.Group.Finset
import QuorumTree.Proofs.Aggregation.Concurrent

/-!
Workers. The calls of a list of combinations are taken in order, each by whichever worker has
nothing left in hand, and their answers are collected in order, up to the first refusal. However
the workers take turns, and whatever else shares the cache, what is collected is what the
combinations come to one after the other; and with enough turns it is collected.
-/

namespace QuorumTree

/-- Workers for the first so many calls: the call that each took last, and the next to be taken. -/
structure Pool (workers : Nat) where
  traffic : Traffic Nat
  hands : Fin workers → Option Nat
  next : Nat

/-- Whose turn it is: that of a worker, or of something that shares the ledger with them. -/
inductive Turn (workers : Nat)
  | work (worker : Fin workers)
  | other (event : Event Nat)
  deriving DecidableEq

variable {primitive : Primitive} {workers : Nat} {ι : Type}

/-- The keys that the combinations ask for, each at its place, and behind them what others ask for.
-/
def requestsOf (member : ι → Except Fault PublicKey) (combinations : List (List ι))
    (others : Nat → List PublicKey) (index : Nat) : Except Fault (List PublicKey) :=
  match combinations[index]? with
  | some combination => combination.mapM member
  | none => .ok (others index)

/-- The answers from a place on, in order and up to the first refusal, once they are all there. -/
def collect (calls : Nat → Call) :
    List (List ι) → Nat → Option (Except Fault (List (AggregatedKey ι)))
  | [], _ => some (.ok [])
  | combination :: rest, place =>
    match calls place with
    | .answered (.ok made) =>
      (collect calls rest (place + 1)).map
        (·.map (⟨combination, made.key, made.coefficients⟩ :: ·))
    | .answered (.error fault) => some (.error fault)
    | _ => none

theorem combinationFor_eq_map (member : ι → Except Fault PublicKey) (combination : List ι) :
    combinationFor primitive member combination =
      (combination.mapM member >>= aggregateOf primitive).map
        fun made => ⟨combination, made.key, made.coefficients⟩ := by
  unfold combinationFor
  cases combination.mapM member with
  | error fault => rfl
  | ok keys =>
      change (aggregateOf primitive keys >>= _) = (aggregateOf primitive keys).map _
      cases aggregateOf primitive keys <;> rfl

/-- What is collected of calls that each answer for their own combination. -/
theorem collect_eq {calls : Nat → Call} {member : ι → Except Fault PublicKey}
    {combinations : List (List ι)} {place : Nat}
    (h : ∀ index combination answer, combinations[index]? = some combination →
      calls (place + index) = .answered answer →
        answer = combination.mapM member >>= aggregateOf primitive)
    {answer : Except Fault (List (AggregatedKey ι))}
    (hcollect : collect calls combinations place = some answer) :
    answer = combinations.mapM (combinationFor primitive member) := by
  induction combinations generalizing place answer with
  | nil =>
      cases hcollect
      rfl
  | cons combination rest ih =>
      have hrest : ∀ index other answer, rest[index]? = some other →
          calls (place + 1 + index) = .answered answer →
            answer = other.mapM member >>= aggregateOf primitive := by
        intro index other answer hother hcall
        refine h (index + 1) other answer hother ?_
        rwa [← Nat.add_assoc, Nat.add_right_comm]
      rw [List.mapM_cons, combinationFor_eq_map]
      unfold collect at hcollect
      split at hcollect
      · next made hcall =>
          rw [← h 0 combination _ rfl hcall]
          obtain ⟨found, hfound, rfl⟩ := Option.map_eq_some_iff.mp hcollect
          rw [ih hrest hfound]
          cases rest.mapM (combinationFor primitive member) <;> rfl
      · next fault hcall =>
          rw [← h 0 combination _ rfl hcall]
          cases hcollect
          rfl
      · cases hcollect

/-- Answers are there to be collected when every call has given one. -/
theorem exists_collect {calls : Nat → Call} (combinations : List (List ι)) {place : Nat}
    (h : ∀ index < combinations.length, (calls (place + index)).remaining = 0) :
    ∃ answer, collect calls combinations place = some answer := by
  induction combinations generalizing place with
  | nil => exact ⟨_, rfl⟩
  | cons combination rest ih =>
      obtain ⟨found, hfound⟩ : ∃ found, collect calls rest (place + 1) = some found := by
        refine ih fun index hindex => ?_
        rw [Nat.add_assoc, Nat.add_comm 1]
        exact h (index + 1) (Nat.succ_lt_succ hindex)
      obtain ⟨answer, hanswer⟩ := Call.remaining_eq_zero_iff.mp (h 0 (Nat.succ_pos _))
      rw [Nat.add_zero] at hanswer
      cases answer with
      | error fault => exact ⟨.error fault, by rw [collect, hanswer]⟩
      | ok made => exact ⟨_, by rw [collect, hanswer, hfound]; rfl⟩

namespace Pool

/-- Workers with empty hands, before the first call. -/
def start (workers : Nat) (memory : Option Cache) (member : ι → Except Fault PublicKey)
    (combinations : List (List ι)) (others : Nat → List PublicKey) : Pool workers :=
  ⟨.start memory (requestsOf member combinations others), fun _ => none, 0⟩

/-- The call that a worker has begun and not ended. -/
def inHand? (pool : Pool workers) (worker : Fin workers) : Option Nat :=
  (pool.hands worker).filter fun index => (pool.traffic.calls index).remaining ≠ 0

/-- A worker goes on with the call in hand, or else takes the next one if there is one. -/
def step (primitive : Primitive) (count : Nat) (pool : Pool workers) : Turn workers → Pool workers
  | .other event => { pool with traffic := pool.traffic.step primitive event }
  | .work worker =>
    match pool.inHand? worker with
    | some index => { pool with traffic := pool.traffic.step primitive (.advance index) }
    | none =>
      if pool.next < count then
        { pool with
          hands := Function.update pool.hands worker (some pool.next)
          next := pool.next + 1 }
      else pool

def run (primitive : Primitive) (count : Nat) (pool : Pool workers) (turns : List (Turn workers)) :
    Pool workers :=
  turns.foldl (step primitive count) pool

variable {count : Nat} {pool : Pool workers}

theorem inHand?_eq_some_iff {worker : Fin workers} {index : Nat} :
    pool.inHand? worker = some index ↔
      pool.hands worker = some index ∧ (pool.traffic.calls index).remaining ≠ 0 := by
  simp [inHand?, Option.filter_eq_some_iff]

theorem inHand?_eq_none_iff {worker : Fin workers} :
    pool.inHand? worker = none ↔
      ∀ index, pool.hands worker = some index → (pool.traffic.calls index).remaining = 0 := by
  simp [inHand?, Option.filter_eq_none_iff]

/-- The three things that a turn can come to. -/
theorem step_cases (primitive : Primitive) (count : Nat) (pool : Pool workers)
    (turn : Turn workers) :
    (∃ event, pool.step primitive count turn =
        { pool with traffic := pool.traffic.step primitive event } ∧
        ∀ worker, turn = .work worker →
          ∃ index, pool.inHand? worker = some index ∧ event = .advance index) ∨
      (∃ worker, turn = .work worker ∧ pool.inHand? worker = none ∧ pool.next < count ∧
        pool.step primitive count turn =
          { pool with
            hands := Function.update pool.hands worker (some pool.next)
            next := pool.next + 1 }) ∨
      (∃ worker, turn = .work worker ∧ pool.inHand? worker = none ∧ count ≤ pool.next ∧
        pool.step primitive count turn = pool) := by
  cases turn with
  | other event => exact .inl ⟨event, rfl, fun worker h => by cases h⟩
  | work worker =>
      cases hhand : pool.inHand? worker with
      | some index =>
          refine .inl ⟨.advance index, ?_, ?_⟩
          · simp only [step, hhand]
          · rintro other hother
            cases hother
            exact ⟨index, hhand, rfl⟩
      | none =>
          refine .inr ?_
          by_cases hnext : pool.next < count
          · exact .inl ⟨worker, rfl, hhand, hnext, by simp only [step, hhand, if_pos hnext]⟩
          · exact .inr ⟨worker, rfl, hhand, Nat.le_of_not_lt hnext,
              by simp only [step, hhand, if_neg hnext]⟩

/-- The traffic of a pool is an interleaving like any other. -/
theorem exists_run_traffic (pool : Pool workers) (turns : List (Turn workers)) :
    ∃ events, (pool.run primitive count turns).traffic = pool.traffic.run primitive events := by
  induction turns generalizing pool with
  | nil => exact ⟨[], rfl⟩
  | cons turn turns ih =>
      obtain ⟨events, hevents⟩ := ih (pool.step primitive count turn)
      change ∃ events, ((pool.step primitive count turn).run primitive count turns).traffic = _
      rw [hevents]
      obtain ⟨event, hstep, -⟩ | ⟨worker, -, -, -, hstep⟩ | ⟨worker, -, -, -, hstep⟩ :=
        step_cases primitive count pool turn
      · exact ⟨event :: events, by rw [hstep]; rfl⟩
      · exact ⟨events, by rw [hstep]⟩
      · exact ⟨events, by rw [hstep]⟩

/-! ### Progress -/

/-- Every call that was taken has ended or is in a hand, and hands hold only calls that were taken.
-/
structure IsOrderly (count : Nat) (pool : Pool workers) : Prop where
  next_le : pool.next ≤ count
  hands_lt : ∀ worker index, pool.hands worker = some index → index < pool.next
  taken : ∀ index < pool.next, (pool.traffic.calls index).remaining = 0 ∨
    ∃ worker, pool.hands worker = some index

/-- What the workers still have to do: the steps left of every call, and to take it. -/
def work (count : Nat) (pool : Pool workers) : Nat :=
  (∑ index ∈ Finset.range count, (pool.traffic.calls index).remaining) + (count - pool.next)

/-- A worker that has nothing in hand, and there is nothing left to take. -/
def IsIdle (count : Nat) (pool : Pool workers) (worker : Fin workers) : Prop :=
  pool.inHand? worker = none ∧ count ≤ pool.next

theorem IsOrderly.step (h : pool.IsOrderly count) (turn : Turn workers) :
    (pool.step primitive count turn).IsOrderly count := by
  obtain ⟨event, hstep, -⟩ | ⟨worker, -, hhand, hnext, hstep⟩ | ⟨worker, -, -, -, hstep⟩ :=
    step_cases primitive count pool turn
  · rw [hstep]
    refine ⟨h.next_le, h.hands_lt, fun index hindex => ?_⟩
    refine (h.taken index hindex).imp_left fun hdone => ?_
    exact Nat.eq_zero_of_le_zero (hdone ▸ Traffic.remaining_step_le pool.traffic event index)
  · rw [hstep]
    refine ⟨hnext, fun other index hother => ?_, fun index hindex => ?_⟩
    · change Function.update pool.hands worker (some pool.next) other = some index at hother
      rcases eq_or_ne other worker with rfl | hne
      · rw [Function.update_self] at hother
        cases hother
        exact Nat.lt_succ_self _
      · rw [Function.update_of_ne hne] at hother
        exact Nat.lt_succ_of_lt (h.hands_lt other index hother)
    · change _ ∨ ∃ other, Function.update pool.hands worker (some pool.next) other = some index
      rcases Nat.lt_succ_iff_lt_or_eq.mp hindex with hold | rfl
      · rcases h.taken index hold with hdone | ⟨other, hother⟩
        · exact .inl hdone
        · rcases eq_or_ne other worker with rfl | hne
          · exact .inl (inHand?_eq_none_iff.mp hhand index hother)
          · exact .inr ⟨other, by rwa [Function.update_of_ne hne]⟩
      · exact .inr ⟨worker, Function.update_self ..⟩
  · rwa [hstep]

theorem work_step_le (primitive : Primitive) (count : Nat) (pool : Pool workers)
    (turn : Turn workers) : (pool.step primitive count turn).work count ≤ pool.work count := by
  obtain ⟨event, hstep, -⟩ | ⟨worker, -, -, -, hstep⟩ | ⟨worker, -, -, -, hstep⟩ :=
    step_cases primitive count pool turn
  · rw [hstep]
    refine Nat.add_le_add_right (Finset.sum_le_sum fun index _ => ?_) _
    exact Traffic.remaining_step_le pool.traffic event index
  · rw [hstep]
    exact Nat.add_le_add_left (Nat.sub_le_sub_left (Nat.le_succ _) _) _
  · rw [hstep]

/-- Each turn of a worker that is not idle does some of the work. -/
theorem work_step_lt (h : pool.IsOrderly count) {worker : Fin workers}
    (hbusy : ¬ pool.IsIdle count worker) :
    (pool.step primitive count (.work worker)).work count < pool.work count := by
  obtain ⟨event, hstep, hevent⟩ | ⟨other, -, -, hnext, hstep⟩ | ⟨other, hother, hhand, hnext, -⟩ :=
    step_cases primitive count pool (.work worker)
  · obtain ⟨index, hhand, rfl⟩ := hevent worker rfl
    obtain ⟨hhand, hleft⟩ := inHand?_eq_some_iff.mp hhand
    have hindex : index < count := (h.hands_lt worker index hhand).trans_le h.next_le
    have hless : ((pool.traffic.step primitive (.advance index)).calls index).remaining <
        (pool.traffic.calls index).remaining :=
      (Traffic.remaining_advance_le pool.traffic index).trans_lt
        (Nat.sub_lt (Nat.pos_of_ne_zero hleft) Nat.one_pos)
    rw [hstep]
    refine Nat.add_lt_add_right (Finset.sum_lt_sum (fun other _ => ?_) ⟨index, ?_, hless⟩) _
    · exact Traffic.remaining_step_le pool.traffic (.advance index) other
    · exact Finset.mem_range.mpr hindex
  · rw [hstep]
    exact Nat.add_lt_add_left (Nat.sub_succ_lt_self _ _ hnext) _
  · cases hother
    exact absurd ⟨hhand, hnext⟩ hbusy

theorem IsIdle.step {worker : Fin workers} (h : pool.IsIdle count worker) (turn : Turn workers) :
    (pool.step primitive count turn).IsIdle count worker := by
  obtain ⟨hhand, hnext⟩ := h
  obtain ⟨event, hstep, -⟩ | ⟨_, -, -, hmore, -⟩ | ⟨_, -, -, -, hstep⟩ :=
    step_cases primitive count pool turn
  · rw [hstep]
    refine ⟨inHand?_eq_none_iff.mpr fun index hindex => ?_, hnext⟩
    have hdone := inHand?_eq_none_iff.mp hhand index hindex
    exact Nat.eq_zero_of_le_zero (hdone ▸ Traffic.remaining_step_le pool.traffic event index)
  · exact absurd hmore (Nat.not_lt.mpr hnext)
  · rw [hstep]
    exact ⟨hhand, hnext⟩

theorem IsOrderly.run (h : pool.IsOrderly count) (turns : List (Turn workers)) :
    (pool.run primitive count turns).IsOrderly count := by
  induction turns generalizing pool with
  | nil => exact h
  | cons turn turns ih => exact ih (h.step turn)

theorem IsIdle.run {worker : Fin workers} (h : pool.IsIdle count worker)
    (turns : List (Turn workers)) : (pool.run primitive count turns).IsIdle count worker := by
  induction turns generalizing pool with
  | nil => exact h
  | cons turn turns ih => exact ih (h.step turn)

/-- A worker either runs out of calls or does some of the work with each of its turns. -/
theorem isIdle_or_work_le (h : pool.IsOrderly count) (worker : Fin workers)
    (turns : List (Turn workers)) :
    (pool.run primitive count turns).IsIdle count worker ∨
      (pool.run primitive count turns).work count + turns.count (.work worker) ≤
        pool.work count := by
  induction turns generalizing pool with
  | nil => exact .inr le_rfl
  | cons turn turns ih =>
      by_cases hbusy : pool.IsIdle count worker
      · exact .inl (hbusy.run (turn :: turns))
      refine (ih (h.step turn)).imp_right fun hrest => ?_
      rcases eq_or_ne turn (.work worker) with rfl | hother
      · have hfirst : (pool.step primitive count (.work worker)).work count < _ :=
          work_step_lt h hbusy
        rw [List.count_cons_self]
        change ((pool.step primitive count (.work worker)).run primitive count turns).work count
          + _ ≤ _
        omega
      · have hfirst := work_step_le primitive count pool turn
        rw [List.count_cons_of_ne hother]
        exact hrest.trans hfirst

/-- With as many turns for each worker as there is work, every call ends. -/
theorem remaining_run_eq_zero (h : pool.IsOrderly count) (hworkers : 0 < workers)
    {turns : List (Turn workers)}
    (hturns : ∀ worker, pool.work count ≤ turns.count (.work worker)) :
    ∀ index < count, ((pool.run primitive count turns).traffic.calls index).remaining = 0 := by
  intro index hindex
  have hafter : (pool.run primitive count turns).IsOrderly count := h.run turns
  by_cases hidle : ∀ worker, (pool.run primitive count turns).IsIdle count worker
  · obtain ⟨-, hnext⟩ := hidle ⟨0, hworkers⟩
    rcases hafter.taken index (hindex.trans_le hnext) with hdone | ⟨worker, hhand⟩
    · exact hdone
    · exact inHand?_eq_none_iff.mp (hidle worker).1 index hhand
  · obtain ⟨worker, hbusy⟩ := not_forall.mp hidle
    have hwork := (isIdle_or_work_le h worker turns).resolve_left hbusy
    have hnothing : (pool.run primitive count turns).work count = 0 := by
      have henough := hturns worker
      omega
    exact Finset.sum_eq_zero_iff.mp (Nat.add_eq_zero_iff.mp hnothing).1 index
      (Finset.mem_range.mpr hindex)

theorem isOrderly_start (memory : Option Cache) (member : ι → Except Fault PublicKey)
    (combinations : List (List ι)) (others : Nat → List PublicKey) :
    (start workers memory member combinations others).IsOrderly count := by
  refine ⟨Nat.zero_le _, ?_, ?_⟩
  · intro worker index hhand
    cases hhand
  · intro index hindex
    cases hindex

theorem work_start (memory : Option Cache) (member : ι → Except Fault PublicKey)
    (combinations : List (List ι)) (others : Nat → List PublicKey) :
    (start workers memory member combinations others).work count = 4 * count := by
  change (∑ _ ∈ Finset.range count, 3) + (count - 0) = 4 * count
  rw [Finset.sum_const, Finset.card_range, smul_eq_mul]
  omega

end Pool

/-- A cache that calls share changes nothing but how often the primitive is asked. A call whose
steps nothing comes between is `aggregate`. Whatever the order of the steps of all calls, and
whenever the cache is emptied, every call answers as it would without a cache, the cache holds only
what the primitive makes and no more than it may, and workers that share out combinations come to
the same aggregates or the same first refusal as one that goes through them in order. -/
theorem shared_cache_transparent {limit : Option Nat} {memory : Option Cache}
    (hmemory : limit.mapM (fun bound => Cache.create (.whole bound)) = .ok memory) :
    (∀ {κ : Type} [DecidableEq κ] (requests : κ → List PublicKey) (events : List (Event κ)),
      let after := (Traffic.start memory fun index => .ok (requests index)).run primitive events
      (∀ index keys, after.calls index = .waiting (.ok keys) →
        ∃ answer next, (aggregate primitive keys).run after.ledger = (answer, next) ∧
          after.run primitive [.advance index, .advance index, .advance index] =
            ⟨next, Function.update after.calls index (.answered answer)⟩) ∧
      (∀ index answer, after.calls index = .answered answer →
        answer = ((aggregate primitive (requests index)).run (.withCache none)).1) ∧
      (∀ index, 3 ≤ events.count (.advance index) →
        ∃ answer, after.calls index = .answered answer) ∧
      ∀ cache, after.ledger.cache = some cache →
        (∀ entry ∈ cache.entries, primitive entry.1 = .ok entry.2) ∧
          ∀ bound, limit = some bound → cache.size ≤ bound) ∧
    ∀ {ι : Type} (member : ι → Except Fault PublicKey) (combinations : List (List ι))
      (others : Nat → List PublicKey) (workers : Nat) (turns : List (Turn workers)),
      let after := (Pool.start workers memory member combinations others).run primitive
        combinations.length turns
      let serial := ((aggregateCombinations primitive member combinations).run
        (.withCache memory)).1
      (∀ answer, collect after.traffic.calls combinations 0 = some answer → answer = serial) ∧
        (0 < workers → (∀ worker, 4 * combinations.length ≤ turns.count (.work worker)) →
          collect after.traffic.calls combinations 0 = some serial) := by
  refine ⟨fun {κ} _ requests events => ?_, fun {ι} member combinations others workers turns => ?_⟩
  · intro after
    have hsound : after.IsSound primitive limit fun index => .ok (requests index) :=
      (Traffic.isSound_start hmemory).run events
    refine ⟨after.run_alone, fun index answer hcall => ?_, fun index hevents => ?_,
      fun cache hcache => ?_⟩
    · rw [(answers_aggregate (requests index)).run_fst Ledger.isFaithful_withCache_none]
      exact hsound.answer_eq hcall
    · have hleft : (after.calls index).remaining ≤ 3 - events.count (.advance index) :=
        Traffic.remaining_run_le _ events index
      exact Call.remaining_eq_zero_iff.mp (by omega)
    · have hcoherent := hsound.ledger cache hcache
      exact ⟨hcoherent.made, hcoherent.size_le⟩
  · intro after serial
    have hserial : serial = combinations.mapM (combinationFor primitive member) :=
      (answers_combinations member combinations).run_fst
        (Ledger.isCoherent_withCache hmemory).isFaithful
    obtain ⟨events, hevents⟩ := Pool.exists_run_traffic
      (Pool.start workers memory member combinations others) turns
    have hsound : after.traffic.IsSound primitive limit
        (requestsOf member combinations others) := by
      change (Pool.run primitive _ _ turns).traffic.IsSound _ _ _
      rw [hevents]
      exact (Traffic.isSound_start hmemory).run events
    have hcollected : ∀ answer, collect after.traffic.calls combinations 0 = some answer →
        answer = serial := by
      intro answer hanswer
      rw [hserial]
      refine collect_eq (fun index combination given hindex hcall => ?_) hanswer
      rw [Nat.zero_add] at hcall
      rw [hsound.answer_eq hcall, requestsOf, hindex]
    refine ⟨hcollected, fun hworkers hturns => ?_⟩
    have hdone : ∀ index < combinations.length, (after.traffic.calls index).remaining = 0 :=
      Pool.remaining_run_eq_zero (Pool.isOrderly_start memory member combinations others) hworkers
        fun worker => (Pool.work_start memory member combinations others).trans_le (hturns worker)
    obtain ⟨answer, hanswer⟩ := exists_collect combinations fun index hindex => by
      rw [Nat.zero_add]
      exact hdone index hindex
    rw [hanswer, hcollected answer hanswer]

namespace TwoAtOnce

def onlyKey : PublicKey :=
  ⟨1, 0xbde70df51939b94c9c24979fa7dd04ebd9b3572da7802290438af2a681895441, by decide +kernel⟩

/-- Takes one key at a time. -/
def single : Primitive
  | [key] => .ok ⟨key, [1]⟩
  | keys => .error (.refusedKeys keys.length)

def requests : Nat → List PublicKey
  | 0 | 1 => [onlyKey]
  | _ => []

def memory : Cache := ⟨some 1, [], 0, 0⟩

/-- Both calls for the key miss it and write it down, but the cache is emptied in between. The call
for no keys is refused. -/
def events : List (Event Nat) :=
  [.advance 0, .advance 1, .advance 0, .advance 1, .advance 0, .clear, .advance 2, .advance 1,
   .advance 2, .advance 2]

def after : Traffic Nat :=
  (Traffic.start (some memory) fun index => .ok (requests index)).run single events

/-- The second worker ends its call long before the first one ends the call that is refused. -/
def turns : List (Turn 2) :=
  .work 0 :: List.replicate 8 (.work 1) ++ .other .clear :: List.replicate 8 (.work 0)

def pool : Pool 2 :=
  (Pool.start 2 (some memory) (participantOf [onlyKey]) [[0, 0], [0]] requests).run single 2 turns

theorem shared_cache_transparent_two_at_once :
    (∃ answer, after.calls 2 = .answered answer ∧
        answer = ((aggregate single []).run (.withCache none)).1) ∧
      (∃ cache, after.ledger.cache = some cache ∧ cache.entries = [([onlyKey], ⟨onlyKey, [1]⟩)] ∧
        cache.size ≤ 1 ∧ single [onlyKey] = .ok ⟨onlyKey, [1]⟩) ∧
      collect pool.traffic.calls [[0, 0], [0]] 0 = some (.error (.refusedKeys 2)) ∧
        ((aggregateCombinations single (participantOf [onlyKey]) [[0, 0], [0]]).run
          (.withCache (some memory))).1 = .error (.refusedKeys 2) := by
  obtain ⟨hcalls, hworkers⟩ := @shared_cache_transparent single (some 1) (some memory) rfl
  obtain ⟨-, hanswers, hends, hcache⟩ := hcalls requests events
  obtain ⟨-, hcollected⟩ := hworkers (participantOf [onlyKey]) [[0, 0], [0]] requests 2 turns
  obtain ⟨answer, hanswer⟩ := hends 2 (by decide)
  have hserial := hcollected (by decide) (by decide)
  have hpool : collect pool.traffic.calls [[0, 0], [0]] 0 = some (.error (.refusedKeys 2)) := rfl
  refine ⟨⟨answer, hanswer, hanswers 2 answer hanswer⟩, ?_, hpool, ?_⟩
  · have hentry : ∃ cache, after.ledger.cache = some cache ∧
        cache.entries = [([onlyKey], ⟨onlyKey, [1]⟩)] := ⟨_, rfl, rfl⟩
    obtain ⟨cache, hfound, hentries⟩ := hentry
    obtain ⟨hmade, hsize⟩ := hcache cache hfound
    refine ⟨cache, hfound, hentries, hsize 1 rfl, hmade ([onlyKey], ⟨onlyKey, [1]⟩) ?_⟩
    rw [hentries]
    exact List.mem_singleton_self _
  · exact Option.some.inj (hserial.symm.trans hpool)

end TwoAtOnce

end QuorumTree
