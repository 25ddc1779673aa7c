import QuorumTree.Proofs.Command.SignerKeys

/-!
The defaults of commands. They are read from the environment before any argument is looked at. Those
of a commit, where they are numbers, show in no other command; where one of them is not, no command
runs.
-/

namespace QuorumTree

/-! ### Reading the defaults -/

/-- The first text that should be the number of a default and is not. An empty budget is none. -/
inductive Environment.RefusesDefaults (env : Environment) : Fault → Prop
  | budget {text : String} {fault : Fault} (hget : env.get? "MAST_PRUNE_BUDGET" = some text)
      (hempty : text ≠ "") (hread : readInteger text = .error fault) : RefusesDefaults env fault
  | ceiling {budget : Option Int} {text : String} {fault : Fault}
      (hbudget : env.integer? "MAST_PRUNE_BUDGET" = .ok budget)
      (hget : env.get? "MAST_MAX_COMBINATIONS" = some text)
      (hread : readInteger text = .error fault) : RefusesDefaults env fault

theorem kind_of_readInteger {text : String} {fault : Fault} (h : readInteger text = .error fault) :
    fault.kind = .value := by
  unfold readInteger at h
  split at h <;> cases h <;> rfl

namespace Environment

variable {env : Environment} {name : String} {fault : Fault}

theorem integer?_eq_error_iff :
    env.integer? name = .error fault ↔
      ∃ text, env.get? name = some text ∧ text ≠ "" ∧ readInteger text = .error fault := by
  unfold integer?
  cases env.get? name with
  | none => simp
  | some text =>
      by_cases hempty : text = ""
      · simp [hempty]
      · cases hread : readInteger text <;> simp [hempty, hread, Except.map]

theorem integerOr_eq_error_iff {fallback : Int} :
    env.integerOr name fallback = .error fault ↔
      ∃ text, env.get? name = some text ∧ readInteger text = .error fault := by
  unfold integerOr
  cases env.get? name <;> simp

end Environment

theorem Defaults.ofEnvironment_eq_error_iff {env : Environment} {fault : Fault} :
    Defaults.ofEnvironment env = .error fault ↔ env.RefusesDefaults fault := by
  simp only [Defaults.ofEnvironment, bind_eq_error_iff, Environment.integer?_eq_error_iff,
    Environment.integerOr_eq_error_iff]
  constructor
  · rintro (⟨text, hget, hempty, hread⟩ | ⟨budget, hbudget, ⟨text, hget, hread⟩ | ⟨_, _, h⟩⟩)
    · exact .budget hget hempty hread
    · exact .ceiling hbudget hget hread
    · cases h
  · rintro (⟨hget, hempty, hread⟩ | ⟨hbudget, hget, hread⟩)
    · exact .inl ⟨_, hget, hempty, hread⟩
    · exact .inr ⟨_, hbudget, .inl ⟨_, hget, hread⟩⟩

theorem Defaults.exists_ofEnvironment_iff {env : Environment} :
    (∃ defaults, Defaults.ofEnvironment env = .ok defaults) ↔
      ∀ fault, ¬ env.RefusesDefaults fault := by
  simp only [← Defaults.ofEnvironment_eq_error_iff]
  cases Defaults.ofEnvironment env <;> simp

theorem Environment.RefusesDefaults.kind_eq {env : Environment} {fault : Fault}
    (h : env.RefusesDefaults fault) : fault.kind = .value := by
  cases h with
  | budget _ _ hread => exact kind_of_readInteger hread
  | ceiling _ _ hread => exact kind_of_readInteger hread

theorem Defaults.url_eq {env : Environment} {defaults : Defaults}
    (h : Defaults.ofEnvironment env = .ok defaults) :
    defaults.url = (env.get? "MAST_DB_URL").getD defaultUrl := by
  simp only [ofEnvironment, bind_eq_ok_iff] at h
  obtain ⟨budget, -, maxCombinations, -, hdefaults⟩ := h
  cases hdefaults
  rfl

/-! ### Using the defaults -/

/-- The command that arguments name, where reading gets as far as one. -/
def commandNamed? (arguments : List String) : Option String :=
  match Arguments.parseLeading Request.leadingOptions arguments with
  | some (.stopped _ command _) => some command
  | _ => none

theorem Request.ofValues?_of_ne {command : String} (hother : command ≠ "commit")
    (defaults others : Defaults) (values : List (String × Arguments.Value)) :
    ofValues? defaults command values = ofValues? others command values := by
  unfold ofValues?
  split
  · exact absurd rfl hother
  all_goals rfl

theorem Invocation.ofArguments_of_ne {arguments : List String}
    (hother : commandNamed? arguments ≠ some "commit") {defaults others : Defaults}
    (hurl : defaults.url = others.url) :
    ofArguments defaults arguments = ofArguments others arguments := by
  unfold commandNamed? at hother
  unfold ofArguments
  rcases hparse : Arguments.parseLeading Request.leadingOptions arguments with
    _ | _ | ⟨leading, command, rest⟩ | _
  · rfl
  · rfl
  · rw [hparse] at hother
    have hne : command ≠ "commit" := fun h => hother (congrArg some h)
    simp only [Request.invocationOf, Request.ofValues?_of_ne hne defaults others, hurl]
  · rfl

theorem runUnder_none [Machine] (settings : Settings) (env : Environment) (columns : Nat)
    (arguments : List String) (shelf : Shelf) :
    runUnder settings none env columns arguments shelf =
      match Defaults.ofEnvironment env with
      | .error fault => (⟨.failed fault, [], [], shelf.usual⟩, shelf)
      | .ok defaults =>
        (Invocation.ofArguments defaults arguments).outcomeOn settings columns shelf := by
  dsimp only [runUnder, withFile, bind, Except.bind, Invocation.of]
  cases Defaults.ofEnvironment env <;> rfl

/-- What the defaults of an environment do to a run. Where one of them is refused, every run ends
with this refusal, whatever its arguments, before it prints anything; the stores stay as they are.
Otherwise they show in commits only: any other run is the same in all environments that name one
database and have defaults which can be read. -/
theorem run_defaults [Machine] (settings : Settings) (columns : Nat) (arguments : List String)
    (shelf : Shelf) :
    (∀ env fault, Environment.RefusesDefaults env fault → fault.kind = .value ∧
      runUnder settings none env columns arguments shelf =
        (⟨.failed fault, [], [], shelf.usual⟩, shelf)) ∧
      (commandNamed? arguments ≠ some "commit" → ∀ env other : Environment,
        env.get? "MAST_DB_URL" = other.get? "MAST_DB_URL" →
        (∀ fault, ¬ env.RefusesDefaults fault) → (∀ fault, ¬ other.RefusesDefaults fault) →
          runUnder settings none env columns arguments shelf =
            runUnder settings none other columns arguments shelf) := by
  constructor
  · intro env fault hrefuses
    refine ⟨hrefuses.kind_eq, ?_⟩
    rw [runUnder_none, Defaults.ofEnvironment_eq_error_iff.mpr hrefuses]
  · intro hother env other hurl henv hothers
    obtain ⟨defaults, hdefaults⟩ := Defaults.exists_ofEnvironment_iff.mpr henv
    obtain ⟨others, hothers⟩ := Defaults.exists_ofEnvironment_iff.mpr hothers
    rw [runUnder_none, runUnder_none, hdefaults, hothers]
    show (Invocation.ofArguments defaults arguments).outcomeOn settings columns shelf = _
    have hsame : defaults.url = others.url := by
      rw [Defaults.url_eq hdefaults, Defaults.url_eq hothers, hurl]
    rw [Invocation.ofArguments_of_ne hother hsame]

namespace OneOfTwo

/-- The proof of a stored quorum. Numbers that no commit would accept make no difference to it; a
text that is no number ends it. -/
theorem run_defaults_prove_one_of_two :
    let shelf := Shelf.empty.after [commitCall]
    let run (env : Environment) := runUnder .default none env 80 (proveCall "0").arguments shelf
    (run [("MAST_PRUNE_BUDGET", " -7 "), ("MAST_MAX_COMBINATIONS", "0")]).1.ending = .done ∧
      run [("MAST_PRUNE_BUDGET", "ten")] =
        (⟨.failed (.notInteger "ten"), [], [], shelf.usual⟩, shelf) := by
  intro shelf run
  have hplain : (run []).1.ending = .done := ending_proveCall_zero
  obtain ⟨hrefused, hsame⟩ := run_defaults .default 80 (proveCall "0").arguments shelf
  have hprove : commandNamed? (proveCall "0").arguments ≠ some "commit" := by
    decide +kernel
  constructor
  · have hodd : Defaults.ofEnvironment [("MAST_PRUNE_BUDGET", " -7 "),
        ("MAST_MAX_COMBINATIONS", "0")] = .ok ⟨defaultUrl, some (-7), 0⟩ := by
      decide +kernel
    have hempty : Defaults.ofEnvironment [] = .ok ⟨defaultUrl, none, 1000000⟩ := rfl
    rw [← hplain]
    apply congrArg fun result : Outcome × Shelf => result.1.ending
    exact hsame hprove _ _ rfl (Defaults.exists_ofEnvironment_iff.mp ⟨_, hodd⟩)
      (Defaults.exists_ofEnvironment_iff.mp ⟨_, hempty⟩)
  · exact (hrefused _ _ (.budget rfl (by decide) (by decide +kernel))).2

end OneOfTwo

end QuorumTree
