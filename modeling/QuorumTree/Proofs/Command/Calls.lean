import QuorumTree.Command.Run
import QuorumTree.Proofs.Runs

/-!
Runs of the program one after another. A run finds its database on the shelf that the runs before it
left, works on the store there, and puts it back; every other store stays as it is.
-/

namespace QuorumTree

/-- What the program is run on, in a process of its own. -/
structure CommandLine where
  processors : Option Number
  file : Option String
  env : Environment
  columns : Nat
  arguments : List String

/-- The usual database is a file like any other. -/
theorem Database.ofUrl_defaultUrl : ofUrl defaultUrl = .ok (.file usualFile .create) := by
  unfold ofUrl ofLocation ofName ofPath ofAddress
  simp only [String.contains_char_eq]
  decide +kernel

namespace Shelf

theorem openUrl_defaultUrl (shelf : Shelf) :
    shelf.openUrl defaultUrl = .ok (.file usualFile .create) := by
  rw [openUrl, Database.ofUrl_defaultUrl]
  rfl

/-- Only the store of the file is put back. -/
theorem table_put_file (shelf : Shelf) (name : String) (access : Access) (store : Store)
    (file : String) :
    (shelf.put (.file name access) store).table file =
      if file = name then store else shelf.table file := by
  rw [put]
  by_cases hname : name = usualFile
  · subst hname
    rw [if_pos rfl, table, table]
    by_cases hfile : file = usualFile
    · rw [if_pos hfile, if_pos hfile]
    · rw [if_neg hfile, if_neg hfile, if_neg hfile]
  · rw [if_neg hname, table, table, List.lookup_cons]
    by_cases hfile : file = name
    · subst hfile
      rw [if_neg hname, if_pos rfl, beq_self_eq_true]
      rfl
    · rw [beq_eq_false_iff_ne.mpr hfile, if_neg hfile]

end Shelf

namespace CommandLine

variable [Machine]

def run (call : CommandLine) (shelf : Shelf) : Outcome × Shelf :=
  runProcess call.processors call.file call.env call.columns call.arguments shelf

/-- The settings and the invocation that a run reads before it looks for its database. -/
def reading (call : CommandLine) : Except Fault (Settings × Invocation) := do
  let settings ← Settings.ofEnvironment call.env call.processors
  let invocation ← withFile call.file call.env >>= (Invocation.of · call.arguments)
  return (settings, invocation)

theorem run_eq (call : CommandLine) (shelf : Shelf) :
    call.run shelf =
      match call.reading with
      | .error fault => (⟨.failed fault, [], [], shelf.usual⟩, shelf)
      | .ok (settings, invocation) => invocation.outcomeOn settings call.columns shelf := by
  rw [run, runProcess, reading]
  cases Settings.ofEnvironment call.env call.processors with
  | error fault => rfl
  | ok settings =>
      dsimp only [runUnder]
      cases withFile call.file call.env >>= (Invocation.of · call.arguments) <;> rfl

/-- The run reads these settings, and its arguments ask for the request on the database of a
file. -/
def Asks (call : CommandLine) (shelf : Shelf) (settings : Settings) (file : String)
    (request : Request) : Prop :=
  ∃ url access, call.reading = .ok (settings, .run url request) ∧
    shelf.openUrl url = .ok (.file file access)

omit [Machine] in
/-- A run that names no database asks for the usual one. -/
theorem asks_of_reading {call : CommandLine} {settings : Settings} {request : Request}
    (h : call.reading = .ok (settings, .run defaultUrl request)) (shelf : Shelf) :
    call.Asks shelf settings usualFile request :=
  ⟨defaultUrl, .create, h, shelf.openUrl_defaultUrl⟩

/-- A run has its outcome on the table of the file that it opens, and leaves the table as it is told
by the outcome. -/
theorem run_of_openUrl {call : CommandLine} {shelf : Shelf} {settings : Settings} {file : String}
    {url : String} {request : Request} {access : Access}
    (hreading : call.reading = .ok (settings, .run url request))
    (hopened : shelf.openUrl url = .ok (.file file access)) :
    let outcome := request.outcome settings call.columns
      (Database.isWritable (.file file access)) (shelf.table file)
    (call.run shelf).1 = outcome ∧ (call.run shelf).2.table file = outcome.store := by
  rw [run_eq, hreading]
  dsimp only [Invocation.outcomeOn]
  rw [hopened]
  dsimp only
  rw [Shelf.table_put_file, if_pos rfl]
  exact ⟨rfl, rfl⟩

/-- A run that names no database works on the usual one. -/
theorem run_of_reading {call : CommandLine} {settings : Settings} {request : Request}
    (h : call.reading = .ok (settings, .run defaultUrl request)) (shelf : Shelf) :
    (call.run shelf).1 = request.outcome settings call.columns true (shelf.table usualFile) :=
  (run_of_openUrl h shelf.openUrl_defaultUrl).1

theorem Asks.exists_outcome {call : CommandLine} {shelf : Shelf} {settings : Settings}
    {file : String} {request : Request} (h : call.Asks shelf settings file request) :
    ∃ isWritable,
      let outcome := request.outcome settings call.columns isWritable (shelf.table file)
      (call.run shelf).1 = outcome ∧ (call.run shelf).2.table file = outcome.store := by
  obtain ⟨url, access, hreading, hopened⟩ := h
  exact ⟨_, run_of_openUrl hreading hopened⟩

/-- A run that changes a table asks for a request on the file of the table. -/
theorem exists_asks_of_table_ne {call : CommandLine} {shelf : Shelf} {file : String}
    (h : (call.run shelf).2.table file ≠ shelf.table file) :
    ∃ settings request, call.Asks shelf settings file request := by
  rw [run_eq] at h
  cases hreading : call.reading with
  | error fault =>
      rw [hreading] at h
      exact absurd rfl h
  | ok read =>
      obtain ⟨settings, invocation⟩ := read
      rw [hreading] at h
      cases invocation with
      | help => exact absurd rfl h
      | refused => exact absurd rfl h
      | run url request =>
          dsimp only [Invocation.outcomeOn] at h
          cases hopened : shelf.openUrl url with
          | error fault =>
              rw [hopened] at h
              exact absurd rfl h
          | ok database =>
              rw [hopened] at h
              cases database with
              | memory => exact absurd rfl h
              | file name access =>
                  dsimp only at h
                  rw [Shelf.table_put_file] at h
                  split_ifs at h with hfile
                  · subst hfile
                    exact ⟨settings, request, url, access, hreading, hopened⟩
                  · exact absurd rfl h

end CommandLine

variable [Machine]

/-- The shelf that runs leave, one after another. -/
def Shelf.after (shelf : Shelf) (calls : List CommandLine) : Shelf :=
  calls.foldl (fun shelf call => (call.run shelf).2) shelf

/-- What holds of a shelf and is kept by each run holds after all of them. -/
theorem Shelf.after_induction {P : Shelf → Prop}
    (hstep : ∀ shelf (call : CommandLine), P shelf → P (call.run shelf).2) {shelf : Shelf}
    (h : P shelf) (calls : List CommandLine) : P (shelf.after calls) := by
  induction calls generalizing shelf with
  | nil => exact h
  | cons call calls ih => exact ih (hstep shelf call h)

end QuorumTree
