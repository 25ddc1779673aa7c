import Mathlib.Data.Finset.Card
import Mathlib.Data.List.DropRight
import QuorumTree.Aggregation.Cache

/-!
What a cache has of its history. Whatever was done with a cache since it was made, it holds the
first aggregate that was put under each key list since it was last cleared, for as many different
key lists as there was room for; the later ones left no trace. The invariant speaks of the puts
since the last clear only, and each use of the cache adds at most one put to them.
-/

namespace QuorumTree.Cache

/-- What can be done with a cache. -/
inductive Use
  | get (keys : List PublicKey)
  | put (keys : List PublicKey) (aggregate : Aggregate)
  | contains (keys : List PublicKey)
  | clear

/-- What a use of a cache is answered with. -/
inductive Answer
  | found (aggregate : Option Aggregate)
  | kept (aggregate : Aggregate)
  | holds (isHeld : Bool)
  | cleared

def use (cache : Cache) : Use → Answer × Cache
  | .get keys => (.found (cache.get keys).1, (cache.get keys).2)
  | .put keys aggregate => (.kept (cache.put keys aggregate).1, (cache.put keys aggregate).2)
  | .contains keys => (.holds (cache.contains keys), cache)
  | .clear => (.cleared, cache.clear)

/-- Uses in order, each with its answer, and the cache that they leave. -/
def run (cache : Cache) : List Use → List (Use × Answer) × Cache
  | [] => ([], cache)
  | next :: rest =>
    let after := (cache.use next).2.run rest
    ((next, (cache.use next).1) :: after.1, after.2)

namespace Use

def isClear : Use → Bool
  | clear => true
  | _ => false

def isGet : Use → Bool
  | get _ => true
  | _ => false

def put? : Use → Option (List PublicKey × Aggregate)
  | put keys aggregate => some (keys, aggregate)
  | _ => none

end Use

/-- The part of a record that follows the last clear. -/
def sinceClear (record : List (Use × Answer)) : List (Use × Answer) :=
  record.rtakeWhile fun entry => !entry.1.isClear

/-- What was put, in order. -/
def putsOf (record : List (Use × Answer)) : List (List PublicKey × Aggregate) :=
  record.filterMap fun entry => entry.1.put?

def isHit : Use × Answer → Bool
  | (.get _, .found (some _)) => true
  | _ => false

/-- How many different key lists something was put under. -/
def distinct (puts : List (List PublicKey × Aggregate)) : Nat :=
  (puts.map Prod.fst).toFinset.card

/-- The aggregate is the first that was put under the key list, and when it was put there was room
for one more: something had been put under fewer than `limit` other key lists. -/
def IsFirst (limit : Nat) (puts : List (List PublicKey × Aggregate)) (keys : List PublicKey)
    (aggregate : Aggregate) : Prop :=
  ∃ before after, puts = before ++ (keys, aggregate) :: after ∧ keys ∉ before.map Prod.fst ∧
    distinct before < limit

variable {limit : Nat} {cache : Cache} {record : List (Use × Answer)}
  {puts : List (List PublicKey × Aggregate)} {keys other : List PublicKey}
  {made found : Aggregate}

theorem IsFirst.mem_map_fst (h : IsFirst limit puts keys found) : keys ∈ puts.map Prod.fst := by
  obtain ⟨before, after, rfl, -, -⟩ := h
  simp

/-- What is put last under a key list is first only where there was nothing under the list yet and
room for it; it changes nothing for the others. -/
theorem isFirst_concat :
    IsFirst limit (puts ++ [(keys, made)]) other found ↔
      IsFirst limit puts other found ∨
        other = keys ∧ found = made ∧ keys ∉ puts.map Prod.fst ∧ distinct puts < limit := by
  constructor
  · rintro ⟨before, after, heq, hfresh, hroom⟩
    rcases after.eq_nil_or_concat with rfl | ⟨between, last, rfl⟩
    · obtain ⟨rfl, hlast⟩ := List.append_inj' heq rfl
      cases hlast
      exact .inr ⟨rfl, rfl, hfresh, hroom⟩
    · rw [List.concat_eq_append, ← List.cons_append, ← List.append_assoc] at heq
      exact .inl ⟨before, between, (List.append_inj' heq rfl).1, hfresh, hroom⟩
  · rintro (⟨before, after, rfl, hfresh, hroom⟩ | ⟨rfl, rfl, hfresh, hroom⟩)
    · exact ⟨before, after ++ [(keys, made)], by simp, hfresh, hroom⟩
    · exact ⟨puts, [], rfl, hfresh, hroom⟩

theorem distinct_concat_of_mem (h : keys ∈ puts.map Prod.fst) :
    distinct (puts ++ [(keys, made)]) = distinct puts := by
  have hmem : keys ∈ (puts.map Prod.fst).toFinset := List.mem_toFinset.mpr h
  simp [distinct, List.toFinset_append, Finset.union_comm, Finset.insert_eq_self.mpr hmem]

theorem distinct_concat_of_notMem (h : keys ∉ puts.map Prod.fst) :
    distinct (puts ++ [(keys, made)]) = distinct puts + 1 := by
  have hfresh : keys ∉ (puts.map Prod.fst).toFinset := mt List.mem_toFinset.mp h
  simp [distinct, List.toFinset_append, Finset.union_comm, Finset.card_insert_of_notMem hfresh]

/-- While there is room, every key list that something was put under has a first aggregate. -/
theorem exists_isFirst (hmem : keys ∈ puts.map Prod.fst) (hroom : distinct puts < limit) :
    ∃ found, IsFirst limit puts keys found := by
  obtain ⟨lists, rest, heq, hfresh⟩ := List.eq_append_cons_of_mem hmem
  obtain ⟨before, tail, rfl, rfl, htail⟩ := List.map_eq_append_iff.mp heq
  obtain ⟨⟨_, found⟩, after, rfl, rfl, rfl⟩ := List.map_eq_cons_iff.mp htail
  refine ⟨found, before, after, rfl, hfresh, lt_of_le_of_lt (Finset.card_le_card ?_) hroom⟩
  rw [List.map_append, List.toFinset_append]
  exact Finset.subset_union_left

/-- What is known of a cache with the given limit, from the record of its uses. -/
structure Remembers (limit : Nat) (record : List (Use × Answer)) (cache : Cache) : Prop where
  maxEntries : cache.maxEntries = some limit
  size : cache.size = min limit (distinct (putsOf (sinceClear record)))
  find? : ∀ keys found,
    cache.find? keys = some found ↔ IsFirst limit (putsOf (sinceClear record)) keys found
  hits : cache.hits = (sinceClear record).countP isHit
  lookups : cache.hits + cache.misses = (sinceClear record).countP (·.1.isGet)

theorem remembers_nil (limit : Nat) : Remembers limit [] ⟨some limit, [], 0, 0⟩ where
  maxEntries := rfl
  size := by simp [Cache.size, sinceClear, putsOf, distinct]
  find? keys found := by simp [Cache.find?, sinceClear, putsOf, IsFirst]
  hits := rfl
  lookups := rfl

theorem sinceClear_concat_clear (answer : Answer) :
    sinceClear (record ++ [(.clear, answer)]) = [] :=
  List.rtakeWhile_concat_neg _ _ _ (by simp [Use.isClear])

theorem sinceClear_concat {next : Use} (h : next.isClear = false) (answer : Answer) :
    sinceClear (record ++ [(next, answer)]) = sinceClear record ++ [(next, answer)] :=
  List.rtakeWhile_concat_pos _ _ _ (by simp [h])

theorem putsOf_concat (next : Use) (answer : Answer) :
    putsOf (record ++ [(next, answer)]) = putsOf record ++ next.put?.toList := by
  cases hput : next.put? <;> simp [putsOf, hput]

/-- What a put changes of what is found: at most the aggregate under its own key list, and that
only where there was none and the cache was not full. -/
theorem find?_put :
    (cache.put keys made).2.find? other =
      if other = keys ∧ cache.find? keys = none ∧ cache.isFull = false then some made
      else cache.find? other := by
  unfold put
  split
  · next heq => simp [heq]
  · next heq =>
      split_ifs with hfull hput hput
      · simp [hfull] at hput
      · rfl
      · rw [hput.1, find?, List.lookup_cons_self]
      · have hother : (other == keys) = false := by
          simpa [heq, hfull] using hput
        rw [find?, List.lookup_cons, hother]
        rfl

theorem fst_put : (cache.put keys made).1 = (cache.find? keys).getD made := by
  unfold put
  split <;> [skip; split_ifs] <;> simp [*]

theorem size_put :
    (cache.put keys made).2.size =
      if cache.find? keys = none ∧ cache.isFull = false then cache.size + 1 else cache.size := by
  unfold put
  split
  · next heq => simp [heq]
  · next heq =>
      split_ifs with hfull hput hput
      · simp [hfull] at hput
      · rfl
      · rfl
      · simp [heq, hfull] at hput

/-- A put leaves the limit and the counts of lookups. -/
theorem counts_put (cache : Cache) (keys : List PublicKey) (made : Aggregate) :
    (cache.put keys made).2.maxEntries = cache.maxEntries ∧
      (cache.put keys made).2.hits = cache.hits ∧
      (cache.put keys made).2.misses = cache.misses := by
  unfold put
  split <;> [skip; split_ifs] <;> exact ⟨rfl, rfl, rfl⟩

theorem find?_get : (cache.get keys).2.find? other = cache.find? other := by
  unfold get
  split <;> rfl

theorem size_get : (cache.get keys).2.size = cache.size := by
  unfold get
  split <;> rfl

theorem maxEntries_get : (cache.get keys).2.maxEntries = cache.maxEntries := by
  unfold get
  split <;> rfl

theorem fst_get : (cache.get keys).1 = cache.find? keys := by
  unfold get
  split <;> simp [*]

namespace Remembers

theorem isFull_eq_false_iff (h : cache.Remembers limit record) :
    cache.isFull = false ↔ distinct (putsOf (sinceClear record)) < limit := by
  simp only [isFull, h.maxEntries, Option.any_some, decide_eq_false_iff_not, h.size]
  omega

theorem find?_eq_none_iff (h : cache.Remembers limit record) (keys : List PublicKey)
    (hroom : distinct (putsOf (sinceClear record)) < limit) :
    cache.find? keys = none ↔ keys ∉ (putsOf (sinceClear record)).map Prod.fst := by
  constructor
  · intro hnone hmem
    obtain ⟨found, hfirst⟩ := exists_isFirst hmem hroom
    rw [← h.find?, hnone] at hfirst
    cases hfirst
  · intro hfresh
    rw [Option.eq_none_iff_forall_ne_some]
    exact fun found hfound => hfresh ((h.find? keys found).mp hfound).mem_map_fst

/-- A use that neither puts nor clears leaves what is found, and is counted with the lookups. -/
theorem concat {after : Cache} {next : Use} {answer : Answer} (h : cache.Remembers limit record)
    (hclear : next.isClear = false) (hput : next.put? = none)
    (hmax : after.maxEntries = cache.maxEntries) (hsize : after.size = cache.size)
    (hfind : ∀ keys, after.find? keys = cache.find? keys)
    (hhits : after.hits = cache.hits + [(next, answer)].countP isHit)
    (hlookups : after.hits + after.misses =
      cache.hits + cache.misses + [(next, answer)].countP (·.1.isGet)) :
    after.Remembers limit (record ++ [(next, answer)]) := by
  have hsince : sinceClear (record ++ [(next, answer)]) = sinceClear record ++ [(next, answer)] :=
    sinceClear_concat hclear answer
  have hputs : putsOf (sinceClear (record ++ [(next, answer)])) = putsOf (sinceClear record) := by
    rw [hsince, putsOf_concat, hput]
    exact List.append_nil _
  refine ⟨hmax.trans h.maxEntries, ?_, fun keys found => ?_, ?_, ?_⟩
  · rw [hputs, hsize, h.size]
  · rw [hputs, hfind, h.find?]
  · rw [hsince, List.countP_append, ← h.hits, hhits]
  · rw [hsince, List.countP_append, ← h.lookups, hlookups]

theorem get (h : cache.Remembers limit record) (keys : List PublicKey) :
    (cache.get keys).2.Remembers limit (record ++ [(.get keys, .found (cache.get keys).1)]) := by
  refine h.concat rfl rfl maxEntries_get size_get (fun other => find?_get) ?_ ?_ <;>
    unfold Cache.get
  · split <;> rfl
  · split
    · exact Nat.add_right_comm _ _ _
    · rfl

theorem contains (h : cache.Remembers limit record) (keys : List PublicKey) (answer : Bool) :
    cache.Remembers limit (record ++ [(.contains keys, .holds answer)]) :=
  h.concat rfl rfl rfl rfl (fun _ => rfl) rfl rfl

theorem clear (h : cache.Remembers limit record) :
    cache.clear.Remembers limit (record ++ [(.clear, .cleared)]) := by
  refine ⟨h.maxEntries, ?_, fun keys found => ?_, ?_, ?_⟩ <;> rw [sinceClear_concat_clear]
  · exact (remembers_nil limit).size
  · exact (remembers_nil limit).find? keys found
  · rfl
  · rfl

/-- The put is remembered with the others, and its aggregate is found afterwards only where it is
the first. -/
theorem put (h : cache.Remembers limit record) (keys : List PublicKey) (made : Aggregate) :
    (cache.put keys made).2.Remembers limit
      (record ++ [(.put keys made, .kept (cache.put keys made).1)]) := by
  have hsince : sinceClear (record ++ [(.put keys made, .kept (cache.put keys made).1)]) =
      sinceClear record ++ [(.put keys made, .kept (cache.put keys made).1)] :=
    sinceClear_concat rfl _
  have hputs : putsOf (sinceClear (record ++ [(.put keys made, .kept (cache.put keys made).1)])) =
      putsOf (sinceClear record) ++ [(keys, made)] := by
    rw [hsince, putsOf_concat]
    rfl
  obtain ⟨hmax, hhits, hmisses⟩ := counts_put cache keys made
  have hnone := h.find?_eq_none_iff keys
  refine ⟨hmax.trans h.maxEntries, ?_, fun other found => ?_, ?_, ?_⟩
  · simp only [hputs, size_put, h.size, h.isFull_eq_false_iff]
    by_cases hmem : keys ∈ (putsOf (sinceClear record)).map Prod.fst
    · rw [distinct_concat_of_mem hmem, if_neg]
      exact fun hput => (hnone hput.2).mp hput.1 hmem
    · rw [distinct_concat_of_notMem hmem]
      split_ifs with hput
      · omega
      · have hroom : ¬distinct (putsOf (sinceClear record)) < limit :=
          fun hroom => hput ⟨(hnone hroom).mpr hmem, hroom⟩
        omega
  · simp only [hputs, isFirst_concat, ← h.find?, find?_put, h.isFull_eq_false_iff]
    split_ifs with hput
    · obtain ⟨rfl, habsent, hroom⟩ := hput
      simp [habsent, hroom, (hnone hroom).mp habsent, eq_comm]
    · refine ⟨.inl, ?_⟩
      rintro (hfound | ⟨rfl, rfl, hfresh, hroom⟩)
      · exact hfound
      · exact absurd ⟨rfl, (hnone hroom).mpr hfresh, hroom⟩ hput
  · rw [hsince, List.countP_append, hhits, ← h.hits]
    rfl
  · rw [hsince, List.countP_append, hhits, hmisses, ← h.lookups]
    rfl

theorem use (h : cache.Remembers limit record) (next : Use) :
    (cache.use next).2.Remembers limit (record ++ [(next, (cache.use next).1)]) := by
  cases next with
  | get keys => exact h.get keys
  | put keys made => exact h.put keys made
  | contains keys => exact h.contains keys (cache.contains keys)
  | clear => exact h.clear

/-- Whatever is done with a cache is remembered together with what had been done before. -/
theorem run (h : cache.Remembers limit record) (more : List Use) :
    (cache.run more).2.Remembers limit (record ++ (cache.run more).1) := by
  induction more generalizing cache record with
  | nil =>
      rw [Cache.run, List.append_nil]
      exact h
  | cons next more ih =>
      have hrest := ih (h.use next)
      rw [List.append_assoc] at hrest
      exact hrest

end Remembers

/-- Without a clear, what is found stays found. -/
theorem find?_run_of_eq_some {more : List Use} (hclear : ∀ next ∈ more, next.isClear = false)
    (hfound : cache.find? keys = some found) : (cache.run more).2.find? keys = some found := by
  induction more generalizing cache with
  | nil => exact hfound
  | cons next more ih =>
      refine ih (fun other hother => hclear other (List.mem_cons_of_mem _ hother)) ?_
      cases next with
      | get asked => exact find?_get.trans hfound
      | contains asked => exact hfound
      | clear => cases hclear .clear List.mem_cons_self
      | put other made =>
          refine find?_put.trans ?_
          rw [if_neg, hfound]
          rintro ⟨rfl, habsent, -⟩
          rw [hfound] at habsent
          cases habsent

theorem map_fst_run (history : List Use) : (cache.run history).1.map Prod.fst = history := by
  induction history generalizing cache with
  | nil => rfl
  | cons next rest ih => exact congrArg (next :: ·) ih

/-- A cache that had room for `limit` entries when it was made, whatever was done with it since.
What it finds is what was put first since the last clear, for the first `limit` different key lists;
it has counted the lookups since then; a put answers with what was there and writes where nothing
was and there is room; and nothing but a clear takes anything away. -/
theorem holds_first_puts (limit : Nat) (history : List Use) :
    ∃ empty : Cache, create (.whole limit) = .ok empty ∧
      let record := (empty.run history).1
      let cache := (empty.run history).2
      let puts := putsOf (sinceClear record)
      record.map Prod.fst = history ∧
        (cache.size ≤ limit ∧ cache.size = min limit (distinct puts)) ∧
        (∀ keys found, (cache.get keys).1 = some found ↔ IsFirst limit puts keys found) ∧
        (∀ keys, cache.contains keys = (cache.get keys).1.isSome) ∧
        (cache.hits = (sinceClear record).countP isHit ∧
          cache.hits + cache.misses = (sinceClear record).countP (·.1.isGet)) ∧
        (∀ keys made, (cache.put keys made).1 = (cache.get keys).1.getD made ∧
          ∀ other, ((cache.put keys made).2.get other).1 =
            if other = keys ∧ (cache.get keys).1 = none ∧ cache.size < limit then some made
            else (cache.get other).1) ∧
        ∀ more, (∀ next ∈ more, next.isClear = false) → ∀ keys found,
          (cache.get keys).1 = some found → ((cache.run more).2.get keys).1 = some found := by
  refine ⟨⟨some limit, [], 0, 0⟩, rfl, ?_⟩
  intro record cache puts
  have h : cache.Remembers limit record := (remembers_nil limit).run history
  have hroom : cache.isFull = false ↔ cache.size < limit := by
    simp [isFull, h.maxEntries]
  refine ⟨map_fst_run history, ⟨h.size.trans_le (min_le_left _ _), h.size⟩, ?_, ?_,
    ⟨h.hits, h.lookups⟩, ?_, ?_⟩
  · intro keys found
    rw [fst_get, h.find?]
  · intro keys
    rw [fst_get, contains]
  · intro keys made
    refine ⟨by rw [fst_put, fst_get], fun other => ?_⟩
    simp only [fst_get, find?_put, hroom]
  · intro more hclear keys found hfound
    rw [fst_get] at hfound ⊢
    exact find?_run_of_eq_some hclear hfound

namespace OneEntry

def first : Aggregate :=
  ⟨⟨4, 0xa6713bac8d71f001f51d0a1e8bdbc30a70d5c0d37c2dba84bcfc9249974eeb9c, by decide +kernel⟩, []⟩

def second : Aggregate :=
  ⟨⟨6, 0x2a410a830399bcccd3f8b867bbadb95cb5a17786b4e7a0250dff50b7873a9a40, by decide +kernel⟩, []⟩

/-- A second aggregate is neither put over the first one nor beside it. -/
theorem holds_first_puts_one_entry :
    ∃ empty : Cache, create (.whole 1) = .ok empty ∧
      let cache := (empty.run [.put [] second, .clear, .get [], .put [] first, .get []]).2
      (cache.get []).1 = some first ∧ cache.hits = 1 ∧ cache.misses = 1 ∧
        ((cache.run [.put [] second, .put [second.key] second]).2.get []).1 = some first := by
  obtain ⟨empty, hempty, hrun⟩ :=
    holds_first_puts 1 [.put [] second, .clear, .get [], .put [] first, .get []]
  have hmade : empty = ⟨some 1, [], 0, 0⟩ := (Except.ok.inj hempty).symm
  subst hmade
  obtain ⟨-, -, -, -, -, -, hkept⟩ := hrun
  refine ⟨_, rfl, rfl, rfl, rfl, hkept _ ?_ [] first rfl⟩
  simp [Use.isClear]

end OneEntry

end QuorumTree.Cache
