import QuorumTree.Command.Run
import QuorumTree.Proofs.Refusal
import QuorumTree.Proofs.Runs

/-!
What commands do to the store. Reading, printing and giving up leave it as it is, so only a commit
that goes through can change it.
-/

namespace QuorumTree

namespace Command

variable {α β : Type}

/-- However the command ends, the store is as it was. -/
def KeepsStore (command : Command α) : Prop :=
  ∀ desk : Desk, (command.run desk).2.store = desk.store

namespace KeepsStore

theorem pure (value : α) : KeepsStore (pure value) :=
  fun _ => rfl

theorem throw (stop : Stop) : KeepsStore (throw stop : Command α) :=
  fun _ => rfl

theorem bind {command : Command α} {next : α → Command β} (h : KeepsStore command)
    (hnext : ∀ value, KeepsStore (next value)) : KeepsStore (command >>= next) := by
  intro desk
  have hfirst := h desk
  rw [run_bind]
  revert hfirst
  rcases command.run desk with ⟨stop | value, between⟩
  · exact id
  · exact (hnext value between).trans

theorem get_bind {next : Desk → Command α} (h : ∀ desk, KeepsStore (next desk)) :
    KeepsStore (get >>= next) :=
  fun desk => h desk desk

theorem print (texts : List String) : KeepsStore (print texts) :=
  fun _ => rfl

theorem stopIf (condition : Bool) (stop : Stop) : KeepsStore (stopIf condition stop) := by
  cases condition
  · exact pure ()
  · exact throw stop

theorem orExit (opening : String) (answer : Except Fault α) :
    KeepsStore (orExit opening answer) := by
  cases answer with
  | ok value => exact pure value
  | error fault =>
      unfold Command.orExit
      dsimp only
      split_ifs
      · exact throw _
      · exact throw _

theorem orFail (answer : Except Fault α) : KeepsStore (orFail answer) := by
  cases answer with
  | ok value => exact pure value
  | error fault => exact throw _

theorem newCache : KeepsStore newCache :=
  fun _ => rfl

theorem perform (cache : Cache) (action : Action α) : KeepsStore (perform cache action) :=
  fun _ => rfl

theorem rebuild [Machine] (cache : Cache) (name : String) : KeepsStore (rebuild cache name) :=
  get_bind fun _ => perform _ _

theorem findRecord (name : String) : KeepsStore (findRecord name) := by
  refine get_bind fun desk => ?_
  cases desk.store.find? (.text name) with
  | some record => exact pure record
  | none => exact throw _

theorem runMinThreshold (participants maxLeaves : Int) :
    KeepsStore (runMinThreshold participants maxLeaves) := by
  refine bind (stopIf _ _) fun _ => bind (orFail _) fun _ => bind (print _) fun _ => ?_
  exact bind (orFail _) fun _ => print _

theorem printProof [Machine] (commitment : Commitment) (signers : String) :
    KeepsStore (printProof commitment signers) := by
  refine bind (orExit _ _) fun _ => bind (orExit _ _) fun _ => bind (orExit _ _) fun _ => ?_
  exact bind (orFail _) fun _ => print _

theorem runProve [Machine] (name signers : String) : KeepsStore (runProve name signers) := by
  refine bind (findRecord name) fun _ => bind newCache fun _ => bind (orFail _) fun _ => ?_
  exact bind (rebuild _ _) fun _ => bind (orExit _ _) fun _ => printProof _ _

theorem printLeaves [Machine] (name : String) : KeepsStore (printLeaves name) := by
  refine bind newCache fun _ => bind (orExit _ _) fun _ => bind (rebuild _ _) fun _ => ?_
  exact bind (orExit _ _) fun _ => bind (print _) fun _ => print _

theorem runShow [Machine] (name : String) (withLeaves : Bool) (columns : Nat) :
    KeepsStore (runShow name withLeaves columns) := by
  refine bind (findRecord name) fun _ => bind (print _) fun _ => bind (print _) fun _ => ?_
  refine bind (orFail _) fun _ => bind (print _) fun _ => ?_
  cases withLeaves
  · exact pure _
  · exact printLeaves name

theorem runVerify (root aggregatedKey proof : String) (leafCount : Option Int) :
    KeepsStore (runVerify root aggregatedKey proof leafCount) := by
  refine bind (orExit _ _) fun _ => bind (orExit _ _) fun _ => bind (orExit _ _) fun _ => ?_
  exact bind (stopIf _ _) fun _ => print _

end KeepsStore

/-! ### Steps that succeed -/

variable {desk after : Desk}

theorem run_get_bind {next : Desk → Command α} :
    ((get : Command Desk) >>= next).run desk = (next desk).run desk := rfl

theorem orExit_ok (opening : String) (value : α) : orExit opening (.ok value) = pure value := rfl

theorem orFail_ok (value : α) : orFail (.ok value) = (pure value : Command α) := rfl

theorem run_throw_ne_ok {stop : Stop} {value : α} :
    (throw stop : Command α).run desk ≠ (.ok value, after) :=
  nofun

theorem run_orExit_eq_ok_iff {opening : String} {answer : Except Fault α} {value : α} :
    (orExit opening answer).run desk = (.ok value, after) ↔ answer = .ok value ∧ desk = after := by
  cases answer with
  | ok found =>
      change (Except.ok found, desk) = (.ok value, after) ↔ _
      rw [Prod.mk.injEq, Except.ok.injEq, Except.ok.injEq]
  | error fault =>
      unfold orExit
      dsimp only
      split_ifs <;> exact iff_of_false run_throw_ne_ok nofun

theorem run_orFail_eq_ok_iff {answer : Except Fault α} {value : α} :
    (orFail answer).run desk = (.ok value, after) ↔ answer = .ok value ∧ desk = after := by
  cases answer with
  | ok found =>
      change (Except.ok found, desk) = (.ok value, after) ↔ _
      rw [Prod.mk.injEq, Except.ok.injEq, Except.ok.injEq]
  | error fault => exact iff_of_false run_throw_ne_ok nofun

theorem run_stopIf_eq_ok_iff {condition : Bool} {stop : Stop} {value : Unit} :
    (stopIf condition stop).run desk = (.ok value, after) ↔ condition = false ∧ desk = after := by
  cases condition with
  | false =>
      change (Except.ok (), desk) = (.ok value, after) ↔ _
      simp
  | true => exact iff_of_false run_throw_ne_ok nofun

theorem run_newCache_bind {next : Except Fault Cache → Command α} :
    (newCache >>= next).run desk = (next desk.settings.newCache).run desk := rfl

theorem run_perform_eq_ok_iff {cache : Cache} {action : Action α} {answer : Except Fault α} :
    (perform cache action).run desk = (.ok answer, after) ↔
      ∃ ledger, action.run (.withCache (some cache)) = (answer, ledger) ∧
        { desk with notices := desk.notices ++ ledger.notices } = after := by
  change (Except.ok (action.run (.withCache (some cache))).1,
    { desk with notices := desk.notices ++ (action.run (.withCache (some cache))).2.notices }) =
      (Except.ok answer, after) ↔ _
  rcases action.run (.withCache (some cache)) with ⟨found, ledger⟩
  rw [Prod.mk.injEq, Except.ok.injEq]
  constructor
  · rintro ⟨rfl, rfl⟩
    exact ⟨ledger, rfl, rfl⟩
  · rintro ⟨_, ⟨⟩, rfl⟩
    exact ⟨rfl, rfl⟩

/-! ### Steps that fail -/

/-- On the desk the command fails: it gives up with a fault, and no message. -/
def FailsOn (command : Command α) (desk : Desk) (fault : Fault) : Prop :=
  (command.run desk).1 = .error (.fault fault)

variable {fault : Fault}

theorem failsOn_bind_iff {command : Command α} {next : α → Command β} :
    FailsOn (command >>= next) desk fault ↔ FailsOn command desk fault ∨
      ∃ value between, command.run desk = (.ok value, between) ∧
        FailsOn (next value) between fault := by
  rw [FailsOn, FailsOn, run_bind]
  rcases command.run desk with ⟨stop | value, between⟩
  · constructor
    · rintro ⟨⟩
      exact .inl rfl
    · rintro (h | ⟨_, _, h, -⟩)
      · cases h
        rfl
      · cases h
  · constructor
    · exact fun h => .inr ⟨value, between, rfl, h⟩
    · rintro (h | ⟨_, _, h, hnext⟩)
      · cases h
      · cases h
        exact hnext

theorem failsOn_get_bind_iff {next : Desk → Command α} :
    FailsOn ((get : Command Desk) >>= next) desk fault ↔ FailsOn (next desk) desk fault :=
  Iff.rfl

theorem failsOn_newCache_bind_iff {next : Except Fault Cache → Command α} :
    FailsOn (newCache >>= next) desk fault ↔ FailsOn (next desk.settings.newCache) desk fault :=
  Iff.rfl

theorem failsOn_perform_bind_iff {cache : Cache} {action : Action α}
    {next : Except Fault α → Command β} :
    FailsOn (perform cache action >>= next) desk fault ↔
      FailsOn (next (action.run (.withCache (some cache))).1)
        { desk with
          notices := desk.notices ++ (action.run (.withCache (some cache))).2.notices } fault :=
  Iff.rfl

/-- Only what nobody expects makes such a step fail; what is expected ends with a message. -/
theorem failsOn_orExit_iff {opening : String} {answer : Except Fault α} :
    FailsOn (orExit opening answer) desk fault ↔
      answer = .error fault ∧ fault.kind.isExpected = false := by
  cases answer with
  | ok value => exact iff_of_false nofun fun h => nomatch h.1
  | error refused =>
      unfold orExit
      dsimp only
      cases hkind : refused.kind.isExpected with
      | true =>
          refine iff_of_false nofun ?_
          rintro ⟨⟨⟩, hfault⟩
          rw [hkind] at hfault
          cases hfault
      | false =>
          change (Except.error (Stop.fault refused) : Except Stop α) = _ ↔ _
          rw [Except.error.injEq, Stop.fault.injEq, Except.error.injEq]
          constructor
          · rintro rfl
            exact ⟨rfl, hkind⟩
          · exact And.left

theorem failsOn_orExit_bind_iff {opening : String} {answer : Except Fault α}
    (h : OnlyExpected answer) {next : α → Command β} :
    FailsOn (orExit opening answer >>= next) desk fault ↔
      ∃ value, answer = .ok value ∧ FailsOn (next value) desk fault := by
  have hanswer : ¬ (answer = .error fault ∧ fault.kind.isExpected = false) :=
    fun ⟨hrefused, hfault⟩ => h.absurd hfault hrefused
  rw [failsOn_bind_iff, failsOn_orExit_iff, or_iff_right hanswer]
  simp only [run_orExit_eq_ok_iff, and_assoc, exists_and_left, exists_eq_left']

theorem failsOn_orFail_bind_iff {answer : Except Fault α} {next : α → Command β} :
    FailsOn (orFail answer >>= next) desk fault ↔
      answer = .error fault ∨ ∃ value, answer = .ok value ∧ FailsOn (next value) desk fault := by
  cases answer with
  | ok value =>
      rw [orFail_ok, pure_bind]
      simp
  | error refused =>
      change (Except.error (Stop.fault refused) : Except Stop β) = _ ↔ _
      simp

theorem failsOn_stopIf_bind_iff {condition : Bool} {stop : Stop} {next : Unit → Command β} :
    FailsOn (stopIf condition stop >>= next) desk fault ↔
      (condition = true ∧ stop = .fault fault) ∨
        (condition = false ∧ FailsOn (next ()) desk fault) := by
  cases condition with
  | false =>
      change FailsOn (next ()) desk fault ↔ _
      simp
  | true =>
      change (Except.error stop : Except Stop β) = _ ↔ _
      simp

end Command

end QuorumTree
