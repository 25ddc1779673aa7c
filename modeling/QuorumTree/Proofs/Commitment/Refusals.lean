import QuorumTree.Proofs.Commitment.Contents
import QuorumTree.Proofs.KeyForms

/-!
What a verifier is refused. Of everything that checking a proof goes through only the look-up of the
signers can be refused in a way that is not expected: where members are not all indices, each is
taken for a key, and a number is then taken for so many zeros.
-/

namespace QuorumTree

/-- The value is of a kind that signers are given in: that of a key, or an index. -/
def Datum.IsSignerLike (value : Datum) : Prop :=
  value.IsKeyLike ∨ ∃ count, value.toInt? = some count

theorem Datum.exists_number_of_toInt? {value : Datum} {count : Int}
    (h : value.toInt? = some count) :
    ∃ number : Number, value = .number number ∧ number.toInt? = some count := by
  cases value with
  | number number => exact ⟨number, rfl, h⟩
  | _ => cases h

theorem onlyExpected_sortParticipants [Machine] {values : List Datum}
    (hvalues : ∀ value ∈ values, value.IsKeyLike) : OnlyExpected (sortParticipants values) := by
  refine .bind (.mapM fun value hvalue => ?_) fun keys => ?_
  · refine (hvalues value hvalue).refusesOnly_ofDatum.mono fun fault hkind => ?_
    rw [hkind]
    rfl
  · dsimp only
    split_ifs
    · exact .error rfl
    · split
      · exact .error rfl
      · exact .ok _

theorem onlyExpected_of (m n : Number) : OnlyExpected (StatedThreshold.of m n) := by
  have hlong : Fault.numberTooLong.kind.isExpected = true := rfl
  refine StatedThreshold.refusesOnly_of (fun fault hkind => ?_) hlong m n
  rw [hkind]
  rfl

namespace Combination

variable {participants : List PublicKey} {fault : Fault}

/-- A member is refused unexpectedly when it is a number that overflows. -/
theorem indexOfKey_eq_error_iff [Machine] {member : Datum} (hmember : member.IsSignerLike)
    (hfault : fault.kind.isExpected = false) :
    indexOfKey participants member = .error fault ↔
      ∃ count, member = .int count ∧ Datum.Overflows count fault := by
  constructor
  · intro h
    unfold indexOfKey at h
    split at h
    · next refused hread =>
        by_cases hinvalid : refused.kind.isInvalidValue = true
        · rw [if_pos hinvalid, Except.error.injEq] at h
          rw [← h, Fault.isExpected_telling rfl] at hfault
          cases hfault
        · rw [if_neg hinvalid] at h
          cases h
          rcases hmember with hkey | ⟨count, hcount⟩
          · rw [hkey.refusesOnly_ofDatum _ hread] at hinvalid
            exact absurd rfl hinvalid
          · exact ⟨count, (Datum.refused_of_toInt? hcount hread).resolve_left hinvalid⟩
    · next key hread =>
        split at h <;> cases h
        cases hfault
  · rintro ⟨count, rfl, hoverflows⟩
    have hcount : Datum.zeroCount count = .error fault :=
      Datum.zeroCount_eq_error_iff.mpr (.inl hoverflows)
    have hread : PublicKey.ofDatum (.int count) = .error fault := by
      simp only [PublicKey.ofDatum, PublicKey.ofByteDatum, Datum.byteLength, hcount]
      rfl
    have hinvalid : ¬ fault.kind.isInvalidValue = true := by
      intro h
      simp [FaultKind.isExpected, h] at hfault
    unfold indexOfKey
    rw [hread]
    exact congrArg Except.error (if_neg hinvalid)

theorem indices?_eq_none_iff {members : List Datum} :
    indices? members = none ↔ ∃ member ∈ members, ∀ index, member ≠ .int index := by
  induction members with
  | nil => simp [indices?]
  | cons member members ih =>
      by_cases hindex : ∃ index, member = .int index
      · obtain ⟨index, rfl⟩ := hindex
        have hcons : indices? (.int index :: members) = (indices? members).map (index :: ·) := by
          rw [indices?, List.mapM_cons]
          cases hrest : indices? members <;> rw [indices?] at hrest <;> simp [hrest]
        rw [hcons, Option.map_eq_none_iff, ih]
        simp
      · have hcons : indices? (member :: members) = none := by
          rw [indices?, List.mapM_cons]
          split
          · next index => exact absurd ⟨index, rfl⟩ hindex
          · rfl
        simp only [hcons, true_iff]
        exact ⟨member, List.mem_cons_self, not_exists.mp hindex⟩

/-- Members are refused unexpectedly when they are not all indices and the first of them that is no
participant is a number that overflows. -/
theorem memberIndices_eq_error_iff [Machine] (hnodup : participants.Nodup) {members : List Datum}
    (hmembers : ∀ member ∈ members, member.IsSignerLike) (hfault : fault.kind.isExpected = false) :
    memberIndices participants members = .error fault ↔
      (∃ member ∈ members, ∀ index, member ≠ .int index) ∧
        ∃ before count rest, members = before ++ .int count :: rest ∧
          (∀ member ∈ before, ∃ key ∈ participants, PublicKey.ofDatum member = .ok key) ∧
          Datum.Overflows count fault := by
  have hfound : ∀ member, (∃ index, indexOfKey participants member = .ok index) ↔
      ∃ key ∈ participants, PublicKey.ofDatum member = .ok key := by
    intro member
    simp only [indexOfKey_eq_ok_iff hnodup, List.mem_iff_getElem?]
    grind
  rw [← indices?_eq_none_iff]
  cases hindices : indices? members with
  | some indices =>
      -- Indices are refused for being out of range, which is expected.
      simp only [reduceCtorEq, false_and, iff_false]
      intro h
      cases members with
      | nil => cases h
      | cons first rest =>
          simp only [memberIndices, hindices] at h
          obtain ⟨index, -, hindex⟩ := exists_of_mapM_eq_error h
          unfold indexOfNumber at hindex
          split_ifs at hindex
          rw [Except.error.injEq] at hindex
          rw [← hindex, Fault.isExpected_telling rfl] at hfault
          cases hfault
  | none =>
      have hkeys : memberIndices participants members =
          members.mapM (indexOfKey participants) := by
        simp only [memberIndices, hindices]
      rw [hkeys, mapM_eq_error_iff, eq_self, true_and]
      constructor
      · rintro ⟨before, member, rest, rfl, hbefore, hmember⟩
        have hlike := hmembers member (List.mem_append_right _ List.mem_cons_self)
        obtain ⟨count, rfl, hoverflows⟩ := (indexOfKey_eq_error_iff hlike hfault).mp hmember
        exact ⟨before, count, rest, rfl,
          fun other hother => (hfound other).mp (hbefore other hother), hoverflows⟩
      · rintro ⟨before, count, rest, rfl, hbefore, hoverflows⟩
        have hlike := hmembers (.int count) (List.mem_append_right _ List.mem_cons_self)
        exact ⟨before, .int count, rest, rfl,
          fun other hother => (hfound other).mpr (hbefore other hother),
          (indexOfKey_eq_error_iff hlike hfault).mpr ⟨count, rfl, hoverflows⟩⟩

/-- A look-up that gives as many distinct indices as asked for is not refused at all, and otherwise
only as callers expect. -/
theorem resolve_eq_error_iff [Machine] {m : Datum} {members : List Datum}
    (hfault : fault.kind.isExpected = false) :
    resolve participants m members = .error fault ↔
      memberIndices participants members = .error fault := by
  rw [resolve, bind_eq_error_iff, or_iff_left]
  rintro ⟨indices, -, h⟩
  split_ifs at h
  · rw [Except.error.injEq] at h
    rw [← h, Fault.isExpected_telling rfl] at hfault
    cases hfault
  · cases h
    cases hfault

end Combination

/-! ### Actions -/

/-- On any ledger, if it is refused, then as callers expect. -/
def Action.RefusesAsExpected {α : Type} (action : Action α) : Prop :=
  ∀ ledger, OnlyExpected (action.run ledger).1

variable {α β : Type}

namespace Action.RefusesAsExpected

theorem lift {answer : Except Fault α} (h : OnlyExpected answer) :
    (liftM answer : Action α).RefusesAsExpected := fun _ => h

theorem bind {action : Action α} {next : α → Action β} (h : action.RefusesAsExpected)
    (hnext : ∀ value, (next value).RefusesAsExpected) : (action >>= next).RefusesAsExpected := by
  intro ledger fault hfault
  have hrun : (action >>= next).run ledger = (.error fault, ((action >>= next).run ledger).2) :=
    Prod.ext hfault rfl
  rcases run_bind_eq_error_iff.mp hrun with hfirst | ⟨found, between, -, hrest⟩
  · exact h ledger fault (congrArg Prod.fst hfirst)
  · exact hnext found between fault (congrArg Prod.fst hrest)

end Action.RefusesAsExpected

/-- An unexpected refusal comes after a step that is refused only as expected. -/
theorem run_lift_bind_eq_error_iff {answer : Except Fault α} (h : OnlyExpected answer)
    {next : α → Action β} {ledger : Ledger} {fault : Fault}
    (hfault : fault.kind.isExpected = false) :
    (((liftM answer : Action α) >>= next).run ledger).1 = .error fault ↔
      ∃ found, answer = .ok found ∧ ((next found).run ledger).1 = .error fault := by
  cases answer with
  | ok found =>
      change ((next found).run ledger).1 = _ ↔ _
      simp
  | error refused =>
      change (Except.error refused : Except Fault β) = _ ↔ _
      simp only [Except.error.injEq, reduceCtorEq, false_and, exists_false, iff_false]
      rintro rfl
      exact h.absurd hfault rfl

/-- And it comes from a step after which everything is refused only as expected. -/
theorem run_lift_bind_eq_error_iff_of_rest {answer : Except Fault α}
    {next : α → Action β} (h : ∀ found, answer = .ok found → (next found).RefusesAsExpected)
    {ledger : Ledger} {fault : Fault} (hfault : fault.kind.isExpected = false) :
    (((liftM answer : Action α) >>= next).run ledger).1 = .error fault ↔ answer = .error fault := by
  cases answer with
  | ok found =>
      change ((next found).run ledger).1 = _ ↔ _
      simp only [reduceCtorEq, iff_false]
      exact (h found rfl ledger).absurd hfault
  | error refused =>
      change (Except.error refused : Except Fault β) = _ ↔ _
      simp only [Except.error.injEq]

/-- The primitive refuses only sets of keys, in its own words or as invalid values. -/
def Controller.RefusesKeysOnly (controller : Controller) : Prop :=
  ∀ keys fault, controller.primitive keys = .error fault →
    fault.kind = .aggregation ∨ fault.kind.isInvalidValue = true

namespace Controller

variable {controller : Controller} {request : PolicyRequest}

/-- However the primitive refuses keys, callers expect what they are told of it. -/
theorem RefusesKeysOnly.isExpected (h : controller.RefusesKeysOnly) {keys : List PublicKey}
    {fault : Fault} (hfault : controller.primitive keys = .error fault) :
    fault.ofPrimitive.kind.isExpected = true := by
  unfold Fault.ofPrimitive
  rcases h keys fault hfault with hkind | hkind
  · rw [if_pos hkind, hkind]
    rfl
  · split_ifs with haggregation
    · rw [haggregation]
      rfl
    · rfl

theorem RefusesKeysOnly.aggregate (h : controller.RefusesKeysOnly) (keys : List PublicKey) :
    (aggregate controller.primitive keys).RefusesAsExpected := by
  intro ledger fault hfault
  obtain ⟨found, -, hrun⟩ | ⟨refused, -, hrefused, hrun⟩ | ⟨made, -, -, hrun⟩ :=
    run_aggregate_cases controller.primitive keys ledger
  · rw [hrun] at hfault
    cases hfault
  · rw [hrun] at hfault
    cases hfault
    exact h.isExpected hrefused
  · rw [hrun] at hfault
    cases hfault

theorem RefusesKeysOnly.aggregateCombination (h : controller.RefusesKeysOnly)
    {participants : List PublicKey} {combination : Combination}
    (hbound : ∀ index ∈ combination, index < participants.length) :
    (aggregateCombination controller.primitive (participantOf participants)
      combination).RefusesAsExpected := by
  refine .bind (.lift ?_) fun keys => .bind (h.aggregate keys) fun made => .lift (RefusesOnly.ok _)
  rw [mapM_participantOf hbound]
  exact RefusesOnly.ok _

theorem run_verifySubset_eq_error_iff [Machine] {members proof root : Datum} {ledger : Ledger}
    {fault : Fault} :
    ((controller.verifySubset request members proof root).run ledger).1 = .error fault ↔
      ((controller.rederive request members).run ledger).1 = .error fault ∧
        fault.kind.isExpected = false := by
  change (controller.verifySubset request members proof root ledger).1 = _ ↔ _
  unfold verifySubset
  rcases (controller.rederive request members).run ledger with ⟨refused | ⟨key, leafCount⟩, between⟩
  · cases hkind : refused.kind.isExpected with
    | true =>
        simp only [hkind, if_true, reduceCtorEq, false_iff, Except.error.injEq]
        rintro ⟨rfl, hfault⟩
        rw [hkind] at hfault
        cases hfault
    | false =>
        simp only [hkind, Bool.false_eq_true, if_false, Except.error.injEq]
        constructor
        · rintro rfl
          exact ⟨rfl, hkind⟩
        · exact fun h => h.1
  · simp

theorem onlyExpected_settle {m : Number} {signers : Int} (hm : m.toInt? = some signers) {n : Nat}
    (hone : 1 ≤ signers) (hle : signers ≤ n) :
    OnlyExpected (StatedThreshold.settle ⟨m, .whole n⟩) := by
  have hsettled : StatedThreshold.settle ⟨m, .whole n⟩ =
      .ok ⟨signers.toNat, n, by omega, by omega⟩ := by
    refine StatedThreshold.settle_eq_ok_iff.mpr ⟨?_, rfl⟩
    rw [hm, Int.toNat_of_nonneg (by omega)]
  rw [hsettled]
  exact RefusesOnly.ok _

/-- Making a quorum anew is refused unexpectedly only where its members are looked up. -/
theorem run_rederive_eq_error_iff [Machine] {values members : List Datum} {signers : Int}
    {fault : Fault}
    (hpubkeys : request.pubkeys = .list values) (hvalues : ∀ value ∈ values, value.IsKeyLike)
    (hthreshold : request.threshold.toInt? = some signers)
    (hbudget : request.budget = .null ∨ ∃ count, request.budget.toInt? = some count)
    (hprimitive : controller.RefusesKeysOnly) (hfault : fault.kind.isExpected = false)
    (ledger : Ledger) :
    ((controller.rederive request (.list members)).run ledger).1 = .error fault ↔
      ∃ participants, sortParticipants values = .ok participants ∧
        1 ≤ signers ∧ signers ≤ participants.length ∧
        Combination.memberIndices participants members = .error fault := by
  obtain ⟨m, hm, hcount⟩ := Datum.exists_number_of_toInt? hthreshold
  have hvaluesItems : (Datum.list values).items = .ok values := rfl
  have hmembersItems : (Datum.list members).items = .ok members := rfl
  have hnumber : (Datum.number m).toNumber = .ok m := rfl
  have hbudgeted : OnlyExpected request.budget.toOptionalNumber := by
    rcases hbudget with hnull | ⟨count, hcount⟩
    · rw [hnull]
      exact RefusesOnly.ok none
    · obtain ⟨number, hnumber, -⟩ := Datum.exists_number_of_toInt? hcount
      rw [hnumber]
      exact RefusesOnly.ok (some number)
  unfold rederive
  rw [hpubkeys, hvaluesItems, run_lift_bind_eq_error_iff (RefusesOnly.ok values) hfault]
  simp only [Except.ok.injEq, exists_eq_left']
  rw [run_lift_bind_eq_error_iff (onlyExpected_sortParticipants hvalues) hfault]
  refine exists_congr fun participants => and_congr_right fun hsorted => ?_
  rw [hm, hnumber, run_lift_bind_eq_error_iff (RefusesOnly.ok m) hfault]
  simp only [Except.ok.injEq, exists_eq_left']
  rw [run_lift_bind_eq_error_iff (onlyExpected_of m _) hfault]
  simp only [StatedThreshold.of_eq_ok_iff hcount, and_assoc, exists_and_left, exists_eq_left]
  refine and_congr_right fun hone => and_congr_right fun hle => ?_
  rw [hmembersItems, run_lift_bind_eq_error_iff (RefusesOnly.ok members) hfault]
  simp only [Except.ok.injEq, exists_eq_left']
  -- What comes after the look-up is refused as expected, if at all.
  rw [run_lift_bind_eq_error_iff_of_rest ?_ hfault, Combination.resolve_eq_error_iff hfault]
  intro combination hresolve
  have hnodup := (isAscendingKeys_of_sortParticipants hsorted).nodup
  obtain ⟨indices, hindices, -, -, hperm, -⟩ := Combination.resolve_eq_ok_iff.mp hresolve
  have hbound : ∀ index ∈ combination, index < participants.length := fun index hindex =>
    Combination.lt_of_memberIndices hnodup hindices (hperm.subset hindex)
  exact .bind (hprimitive.aggregateCombination hbound) fun _ =>
    .bind (.lift (onlyExpected_settle hcount hone hle)) fun _ =>
    .bind (.lift hbudgeted) fun _ => .lift (RefusesOnly.ok _)

/-- What a verifier of an ordinary policy is refused unexpectedly, on whatever proof, root and
ledger: participants and threshold are acceptable, but the signers are not all indices, and the
first of them that is no participant is a number that overflows. In all other cases there is a
verdict. -/
theorem verifySubset_refused_iff [Machine] {values members : List Datum} {signers : Int}
    {fault : Fault}
    (hpubkeys : request.pubkeys = .list values) (hvalues : ∀ value ∈ values, value.IsKeyLike)
    (hthreshold : request.threshold.toInt? = some signers)
    (hbudget : request.budget = .null ∨ ∃ count, request.budget.toInt? = some count)
    (hmembers : ∀ member ∈ members, member.IsSignerLike) (hprimitive : controller.RefusesKeysOnly)
    (proof root : Datum) (ledger : Ledger) :
    ((controller.verifySubset request (.list members) proof root).run ledger).1 = .error fault ↔
      ∃ participants, sortParticipants values = .ok participants ∧
        1 ≤ signers ∧ signers ≤ participants.length ∧
        (∃ member ∈ members, ∀ index, member ≠ .int index) ∧
        ∃ before count rest, members = before ++ .int count :: rest ∧
          (∀ member ∈ before, ∃ key ∈ participants, PublicKey.ofDatum member = .ok key) ∧
          Datum.Overflows count fault := by
  rw [run_verifySubset_eq_error_iff]
  constructor
  · rintro ⟨hrefused, hfault⟩
    obtain ⟨participants, hsorted, hone, hle, hmember⟩ := (run_rederive_eq_error_iff hpubkeys
      hvalues hthreshold hbudget hprimitive hfault ledger).mp hrefused
    have hnodup := (isAscendingKeys_of_sortParticipants hsorted).nodup
    exact ⟨participants, hsorted, hone, hle,
      (Combination.memberIndices_eq_error_iff hnodup hmembers hfault).mp hmember⟩
  · rintro ⟨participants, hsorted, hone, hle, hmixed, before, count, rest, hsplit, hbefore,
      hoverflows⟩
    have hfault := hoverflows.isExpected_eq_false
    have hnodup := (isAscendingKeys_of_sortParticipants hsorted).nodup
    refine ⟨(run_rederive_eq_error_iff hpubkeys hvalues hthreshold hbudget hprimitive hfault
      ledger).mpr ⟨participants, hsorted, hone, hle, ?_⟩, hfault⟩
    exact (Combination.memberIndices_eq_error_iff hnodup hmembers hfault).mpr
      ⟨hmixed, before, count, rest, hsplit, hbefore, hoverflows⟩

end Controller

theorem refusesKeysOnly_of_musig {controller : Controller} (h : controller.primitive = musig) :
    controller.RefusesKeysOnly := by
  intro keys fault hfault
  left
  rw [h] at hfault
  unfold musig at hfault
  split_ifs at hfault
  · cases hfault
    rfl
  · dsimp only at hfault
    split at hfault <;> cases hfault
    rfl
  · cases hfault
    rfl

namespace TwoOfThree

/-- A participant next to an index that is no count of bytes: there is no verdict. -/
theorem verifySubset_refused_two_of_three :
    ((controller.verifySubset request (.list [.key firstKey, .int (2 ^ 63)]) (.bytes [])
      (.bytes commitment.root.bytes)).run (Ledger.withCache none)).1 = .error .countTooWide := by
  have hvalues : ∀ value ∈ values, value.IsKeyLike := by
    simp [values, Datum.IsKeyLike.key]
  have hmembers : ∀ member ∈ [Datum.key firstKey, .int (2 ^ 63)], member.IsSignerLike := by
    refine List.forall_mem_cons.mpr ⟨.inl (.key firstKey), ?_⟩
    refine List.forall_mem_singleton.mpr (.inr ⟨_, rfl⟩)
  refine (Controller.verifySubset_refused_iff rfl hvalues rfl (.inr ⟨2, rfl⟩) hmembers
    (refusesKeysOnly_of_musig rfl) _ _ _).mpr
    ⟨commitment.participants, sortParticipants_values, by decide, by decide,
      ⟨.key firstKey, List.mem_cons_self, fun index h => by cases h⟩,
      [.key firstKey], 2 ^ 63, [], rfl, ?_, .inl ⟨rfl, by decide⟩⟩
  exact List.forall_mem_singleton.mpr ⟨firstKey, List.mem_cons_self, rfl⟩

end TwoOfThree

end QuorumTree
