import QuorumTree.Proofs.Aggregation.Calls
import QuorumTree.Proofs.Commitment.Contents
import QuorumTree.Proofs.KeyForms

/-!
How participants are listed. A commitment is made of the participants in ascending order, so neither
the order nor the forms in which their keys were given can be told from it. Lists that differ in
these are accepted or refused together; and a key that is listed twice, in whatever forms, is
refused before anything is aggregated.
-/

namespace QuorumTree

/-- The same participants listed in another order, and keys among them in other forms. -/
def Relisted [Machine] (values others : List Datum) : Prop :=
  ∃ reordered, values.Perm reordered ∧
    List.Forall₂ (fun value other => value = other ∨
      ∃ key, PublicKey.ofDatum value = .ok key ∧ key.IsForm other) reordered others

section

variable [Machine] {values others : List Datum}

namespace Relisted

/-- What the values are read as is the same, up to order. -/
theorem map_ofDatum_perm (h : Relisted values others) :
    (values.map PublicKey.ofDatum).Perm (others.map PublicKey.ofDatum) := by
  obtain ⟨reordered, hperm, hforms⟩ := h
  have hread : reordered.map PublicKey.ofDatum = others.map PublicKey.ofDatum := by
    rw [← List.forall₂_eq_eq_eq, List.forall₂_map_left_iff, List.forall₂_map_right_iff]
    refine hforms.imp fun value other hform => ?_
    rcases hform with rfl | ⟨key, hkey, hother⟩
    · rfl
    · rw [hkey, hother.ofDatum_eq_ok]
  rw [← hread]
  exact hperm.map _

theorem exists_denote (h : Relisted values others) {keys : List PublicKey}
    (hkeys : Denote values keys) : ∃ relisted, Denote others relisted ∧ keys.Perm relisted := by
  have hvalues := denote_iff.mp hkeys
  have hperm := h.map_ofDatum_perm
  obtain ⟨relisted, hrelisted⟩ : ∃ relisted, Denote others relisted := by
    refine exists_mapM_eq_ok fun other hother => ?_
    have hread := hperm.mem_iff.mpr (List.mem_map_of_mem hother)
    rw [hvalues] at hread
    obtain ⟨key, -, hkey⟩ := List.mem_map.mp hread
    exact ⟨key, hkey.symm⟩
  refine ⟨relisted, hrelisted, ?_⟩
  rw [hvalues, denote_iff.mp hrelisted] at hperm
  exact (List.map_perm_map_iff fun a b => Except.ok.inj).mp hperm

/-- The participants are the same, unless a key is refused; then one is refused in either list. -/
theorem sortParticipants (h : Relisted values others)
    (hvalues : ∀ value ∈ values, value.IsKeyLike) :
    sortParticipants values = sortParticipants others ∨
      ∃ fault other, sortParticipants values = .error fault ∧
        sortParticipants others = .error other ∧ fault.kind = other.kind := by
  have hperm := h.map_ofDatum_perm
  cases hread : values.mapM PublicKey.ofDatum with
  | ok keys =>
      obtain ⟨relisted, hrelisted, hkeys⟩ := h.exists_denote hread
      exact .inl (sortParticipants_congr hread hrelisted hkeys)
  | error fault =>
      right
      obtain ⟨value, hvalue, hrefused⟩ := exists_of_mapM_eq_error hread
      cases hothers : others.mapM PublicKey.ofDatum with
      | ok relisted =>
          -- The outcome of the value that is refused is one of those of the other list.
          have houtcome := hperm.mem_iff.mp (List.mem_map_of_mem hvalue)
          rw [denote_iff.mp hothers, hrefused] at houtcome
          obtain ⟨key, -, hkey⟩ := List.mem_map.mp houtcome
          cases hkey
      | error other =>
          obtain ⟨item, hitem, hother⟩ := exists_of_mapM_eq_error hothers
          obtain ⟨given, hgiven, hsame⟩ :=
            List.mem_map.mp (hperm.mem_iff.mpr (List.mem_map_of_mem hitem))
          refine ⟨fault, other, ?_, ?_, ?_⟩
          · rw [QuorumTree.sortParticipants, hread]
            rfl
          · rw [QuorumTree.sortParticipants, hothers]
            rfl
          · rw [(hvalues value hvalue).refusesOnly_ofDatum fault hrefused,
              (hvalues given hgiven).refusesOnly_ofDatum other (hsame.trans hother)]

end Relisted

/-- A key is refused for being listed twice when all are read and two of them are the same. -/
theorem sortParticipants_eq_repeated_iff (hvalues : ∀ value ∈ values, value.IsKeyLike) :
    (∃ key, sortParticipants values = .error (.repeatedParticipant key)) ↔
      ∃ keys, Denote values keys ∧ ¬ keys.Nodup := by
  constructor
  · rintro ⟨key, h⟩
    cases houtcome : values.mapM PublicKey.ofDatum with
    | error fault =>
        obtain ⟨value, hvalue, hrefused⟩ := exists_of_mapM_eq_error houtcome
        have hkind := (hvalues value hvalue).refusesOnly_ofDatum fault hrefused
        rw [sortParticipants, houtcome] at h
        cases h
        cases hkind
    | ok keys =>
        refine ⟨keys, houtcome, fun hnodup => ?_⟩
        rw [sortParticipants_of_denote houtcome,
          firstRepeated_mergeSort_eq_none_iff.mpr hnodup] at h
        split_ifs at h
        cases h
  · rintro ⟨keys, hkeys, hrepeated⟩
    have hnonempty : ¬ (keys.mergeSort PublicKey.le).isEmpty = true := by
      rw [List.isEmpty_iff]
      intro hempty
      have hperm := List.mergeSort_perm keys PublicKey.le
      rw [hempty, List.nil_perm] at hperm
      exact hrepeated (hperm ▸ List.nodup_nil)
    rw [sortParticipants_of_denote hkeys, if_neg hnonempty]
    cases hfirst : firstRepeated (keys.mergeSort PublicKey.le) with
    | none => exact absurd (firstRepeated_mergeSort_eq_none_iff.mp hfirst) hrepeated
    | some key => exact ⟨key.bytes, rfl⟩

end

/-! ### Committing -/

/-- The policy with its participants listed as given. -/
def PolicyRequest.listing (request : PolicyRequest) (values : List Datum) : PolicyRequest :=
  { request with pubkeys := .list values }

/-- Refused for something else than the keys of a quorum or of the policy. -/
abbrev NotForKeys {α : Type} (answer : Except Fault α) : Prop :=
  RefusesOnly (·.kind ≠ .aggregation) answer

theorem notForKeys_toNumber (value : Datum) : NotForKeys value.toNumber := by
  unfold Datum.toNumber
  split
  · exact .ok _
  · exact .error (by decide)

theorem notForKeys_of (m n : Number) : NotForKeys (StatedThreshold.of m n) := by
  refine StatedThreshold.refusesOnly_of (fun fault hkind => ?_) (by decide) m n
  rw [hkind]
  decide

theorem notForKeys_toStated (value : Datum) (participants : Nat) :
    NotForKeys (value.toStated participants) := by
  unfold Datum.toStated
  split
  · split_ifs
    · exact .ok _
    · exact .telling (by simp [Fault.kind]) (by decide)
  · exact .bind (notForKeys_toNumber _) fun _ => notForKeys_of _ _

theorem notForKeys_settle (stated : StatedThreshold) : NotForKeys stated.settle := by
  unfold StatedThreshold.settle
  split
  · unfold Threshold.of
    split_ifs
    · exact .telling (by simp [Fault.kind]) (by decide)
    · exact .telling (by simp [Fault.kind]) (by decide)
    · exact .telling (by simp [Fault.kind]) (by decide)
    · exact .ok _
  · exact .error (by decide)

theorem notForKeys_toOptionalNumber (value : Datum) : NotForKeys value.toOptionalNumber := by
  unfold Datum.toOptionalNumber
  split
  · exact .ok none
  · exact .map (notForKeys_toNumber _) _

theorem notForKeys_checkWorkers (workers : Datum) : NotForKeys (checkWorkers workers) := by
  unfold checkWorkers
  split_ifs
  · exact .ok _
  · exact (notForKeys_toOptionalNumber _).map _

theorem notForKeys_listable [Machine] (threshold : Threshold) :
    NotForKeys (Combination.listable threshold) := by
  unfold Combination.listable
  split_ifs
  · exact .error (by decide)
  · exact .ok _
  · exact .error (by decide)

theorem notForKeys_participantOf (participants : List PublicKey) (index : Nat) :
    NotForKeys (participantOf participants index) := by
  unfold participantOf participantAt
  dsimp only
  split
  · exact .ok _
  · exact .error (by decide)

theorem refusesLate_report {fault : Fault} (notices : List Notice) :
    (report notices).RefusesLate fault :=
  .modify fun _ => rfl

theorem Controller.refusesLate_internalKeyOf {fault : Fault} (controller : Controller)
    (participants : List PublicKey) (given : Datum) :
    (controller.internalKeyOf participants given).RefusesLate fault := by
  cases given with
  | null => exact .bind (refusesLate_aggregate participants) fun _ => .pure _
  | _ => exact .pure _

/-- All that committing does with a list of participants is to sort it. What comes after is refused
in words about keys only once an aggregate was asked for. -/
theorem Controller.exists_commitPruned_eq [Machine] (controller : Controller)
    (request : PolicyRequest) :
    ∃ next : List PublicKey → Action (Commitment × Number),
      (∀ values, controller.commitPruned (request.listing values) =
        liftM (sortParticipants values) >>= next) ∧
      ∀ participants fault, fault.kind = .aggregation →
        (next participants).RefusesLate fault := by
  refine ⟨?next, fun values => ?sorted, fun participants fault hfault => ?late⟩
  case sorted =>
    have hitems : (liftM (Datum.list values).items : Action (List Datum)) = pure values := rfl
    simp only [commitPruned, PolicyRequest.listing, hitems, pure_bind]
    rfl
  case late =>
    have late {α : Type} {answer : Except Fault α} (h : NotForKeys answer) :
        (liftM answer : Action α).RefusesLate fault := .lift (h.ne_error (by rw [hfault]; decide))
    have hmembers (combination : Combination) :
        combination.mapM (participantOf participants) ≠ .error fault :=
      RefusesOnly.ne_error (.mapM fun index _ => notForKeys_participantOf participants index)
        (by rw [hfault]; decide)
    exact .bind (late (notForKeys_toStated _ _)) fun _ =>
      .bind (late (notForKeys_settle _)) fun _ =>
      .bind (late (notForKeys_toNumber _)) fun _ =>
      .bind (late (Combination.refusesOnly_withinCeiling (fun _ _ _ _ => by simp [Fault.kind])
        (by decide) _ _ _)) fun _ => .bind (late (notForKeys_listable _)) fun _ =>
      .bind (late (refusesOnly_pruneData (Source.lists_quorums _) (notForKeys_toOptionalNumber _)
        (fun _ => by simp [Fault.kind]) (by decide) (by decide) _)) fun _ =>
      .bind (refusesLate_report _) fun _ => .bind (late (notForKeys_checkWorkers _)) fun _ =>
      .bind (refusesLate_aggregateCombinations hmembers) fun _ =>
      .bind (late (MerkleTree.refusesOnly_ofLeaves (by decide) _)) fun _ =>
      .bind (controller.refusesLate_internalKeyOf participants _) fun _ =>
      .bind (refusesLate_report _) fun _ => .pure _

/-- A commitment tells nothing of how its participants were listed. On the same ledger two lists of
the same keys, in whatever order and forms, give the same commitment and the same number of dropped
quorums, and leave the same ledger, or are refused alike. A list is refused for a repeated
participant before anything is aggregated exactly when all of its keys are read and two of them are
the same. -/
theorem Controller.commit_ignores_listing [Machine] (controller : Controller)
    (request : PolicyRequest) {values others : List Datum}
    (hvalues : ∀ value ∈ values, value.IsKeyLike)
    (hothers : Relisted values others) (ledger : Ledger) :
    ((∃ made after,
        (controller.commitPruned (request.listing values)).run ledger = (.ok made, after) ∧
          (controller.commitPruned (request.listing others)).run ledger = (.ok made, after)) ∨
      ∃ fault other after,
        (controller.commitPruned (request.listing values)).run ledger = (.error fault, after) ∧
          (controller.commitPruned (request.listing others)).run ledger = (.error other, after) ∧
          fault.kind = other.kind) ∧
    ((∃ key, (controller.commitPruned (request.listing values)).run ledger =
        (.error (.repeatedParticipant key), ledger)) ↔
      ∃ keys, Denote values keys ∧ ¬ keys.Nodup) := by
  obtain ⟨next, hnext, hlate⟩ := controller.exists_commitPruned_eq request
  have hrefused {listed : List Datum} {fault : Fault} (h : sortParticipants listed = .error fault) :
      (controller.commitPruned (request.listing listed)).run ledger = (.error fault, ledger) := by
    rw [hnext, h]
    rfl
  constructor
  · rcases hothers.sortParticipants hvalues with hsame | ⟨fault, other, hfault, hother, hkind⟩
    · have hrun : (controller.commitPruned (request.listing values)).run ledger =
          (controller.commitPruned (request.listing others)).run ledger := by
        rw [hnext, hnext, hsame]
      rcases houtcome : (controller.commitPruned (request.listing others)).run ledger with
        ⟨fault | made, after⟩
      · exact .inr ⟨fault, fault, after, hrun.trans houtcome, rfl, rfl⟩
      · exact .inl ⟨made, after, hrun.trans houtcome, rfl⟩
    · exact .inr ⟨fault, other, ledger, hrefused hfault, hrefused hother, hkind⟩
  · rw [← sortParticipants_eq_repeated_iff hvalues]
    refine exists_congr fun key => ⟨fun hrun => ?_, hrefused⟩
    rw [hnext, run_bind_eq_error_iff] at hrun
    rcases hrun with hsorted | ⟨participants, between, hsorted, hrest⟩
    · exact congrArg Prod.fst hsorted
    · -- Had the participants been sorted, a call would have been added to the ledger.
      obtain ⟨-, rfl⟩ := run_lift_eq_ok_iff.mp hsorted
      have hgrown := (hlate participants _ rfl).lt ledger (congrArg Prod.fst hrest)
      rw [hrest] at hgrown
      exact absurd hgrown (lt_irrefl _)

namespace TwoOfThree

/-- The participants in another order, two of them in other forms. -/
def relisted : List Datum :=
  [.bytes (firstKey.uncompressed 0x04), .text secondKey.hex, .key thirdKey]

theorem relisted_values : Relisted values relisted := by
  refine ⟨[.key firstKey, .key secondKey, .key thirdKey], ?_, ?_⟩
  · change [Datum.key thirdKey, .key firstKey, .key secondKey].Perm _
    exact (List.Perm.swap _ _ _).trans ((List.Perm.swap _ _ _).cons _)
  · refine .cons (.inr ⟨firstKey, rfl, .bytes (.uncompressed (.inl rfl))⟩)
      (.cons ?_ (.cons ?_ .nil))
    · exact .inr ⟨secondKey, rfl, .text (Hex.decodeSpaced_encode _) .compressed⟩
    · exact .inl rfl

/-- Relisted, the policy leads to the same commitment; with a key listed as itself and as its text
nothing is aggregated. -/
theorem commit_ignores_listing_two_of_three :
    (∃ after, (controller.commitPruned (request.listing relisted)).run (Ledger.withCache none) =
        (.ok (commitment, .whole 1), after)) ∧
      ∃ key, (controller.commitPruned (request.listing [.key firstKey, .text firstKey.hex])).run
        (Ledger.withCache none) = (.error (.repeatedParticipant key), Ledger.withCache none) := by
  have hvalues : ∀ value ∈ values, value.IsKeyLike := by
    simp [values, Datum.IsKeyLike.key]
  constructor
  · obtain ⟨after, hrun⟩ := exists_run
    have hlisted : request.listing values = request := rfl
    obtain ⟨⟨made, found, hfirst, hsecond⟩ | ⟨_, _, _, hfirst, -, -⟩, -⟩ :=
      controller.commit_ignores_listing request hvalues relisted_values (Ledger.withCache none)
    · rw [hlisted, hrun] at hfirst
      cases hfirst
      exact ⟨after, hsecond⟩
    · rw [hlisted, hrun] at hfirst
      cases hfirst
  · have htwice : ∀ value ∈ [Datum.key firstKey, .text firstKey.hex], value.IsKeyLike :=
      List.forall_mem_cons.mpr ⟨.key _, List.forall_mem_singleton.mpr (.text _)⟩
    have hsame : Relisted [.key firstKey, .text firstKey.hex] [.key firstKey, .text firstKey.hex] :=
      ⟨_, .refl _, .cons (.inl rfl) (.cons (.inl rfl) .nil)⟩
    refine (controller.commit_ignores_listing request htwice hsame _).2.mpr
      ⟨[firstKey, firstKey], ?_, by simp⟩
    refine mapM_eq_ok_iff.mpr (.cons rfl (.cons ?_ .nil))
    exact firstKey.ofHex_hex

end TwoOfThree

end QuorumTree
