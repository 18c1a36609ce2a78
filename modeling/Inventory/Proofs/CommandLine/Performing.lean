import Inventory.CommandLine.Run

/-!
# CommandLine — commands that change a store

Two commands of the program change a store: one takes in a graph file, with or
without merging, and one deletes an instance. Each reads what it needs, changes
the store and writes it in one piece, so where writing succeeds the command ends
as the change does, and a change that fails writes nothing.
-/

namespace Inventory

/-! ## Scripts whose writes succeed -/

namespace Script

variable {α β : Type}

/-- What a script ends with, and what it writes on its way, where each file is as
given and every write succeeds. -/
def perform (files : String → Except FileFault FileContent) :
    Script α → α × List (String × FileContent)
  | .done a => (a, [])
  | .read path next => (next (files path)).perform files
  | .write path c next =>
    let (a, writes) := (next (.ok ())).perform files
    (a, (path, c) :: writes)
  | .makeDirectory _ next => (next (.ok ())).perform files

theorem perform_bind (files : String → Except FileFault FileContent) (s : Script α)
    (f : α → Script β) :
    (s.bind f).perform files =
      (((f (s.perform files).1).perform files).1,
        (s.perform files).2 ++ ((f (s.perform files).1).perform files).2) := by
  induction s with
  | done a => rfl
  | read path next ih => exact ih (files path)
  | write path c next ih =>
      have hnext := ih (.ok ())
      simp only [bind, perform, hnext, List.cons_append]
  | makeDirectory path next ih => exact ih (.ok ())

end Script

namespace CommandLine

variable {α β ε : Type} {files : String → Except FileFault FileContent}

namespace Action

/-- What an action ends with and what it writes. -/
def perform (files : String → Except FileFault FileContent) (x : Action α) :
    Except CommandError α × List (String × FileContent) := x.run.perform files

theorem perform_bind_ok {x : Action α} {a : α} {writes : List (String × FileContent)}
    (h : perform files x = (.ok a, writes)) (f : α → Action β) :
    perform files (x >>= f) = ((perform files (f a)).1, writes ++ (perform files (f a)).2) := by
  have hbind := Script.perform_bind files x.run (ExceptT.bindCont f)
  rw [show x.run.perform files = (.ok a, writes) from h] at hbind
  exact hbind

theorem perform_bind_error {x : Action α} {e : CommandError} {writes : List (String × FileContent)}
    (h : perform files x = (.error e, writes)) (f : α → Action β) :
    perform files (x >>= f) = (.error e, writes) := by
  have hbind := Script.perform_bind files x.run (ExceptT.bindCont f)
  rw [show x.run.perform files = (.error e, writes) from h] at hbind
  exact hbind.trans (by simp [ExceptT.bindCont, pure, Script.perform])

end Action

/-! ## Changes -/

/-- What surrounds a command: the files, the settings, and the ids of edges that
come without one. -/
structure Surroundings where
  files : String → Except FileFault FileContent
  settings : Settings
  freshId : Nat → EdgeId

namespace Surroundings

/-- The text of a file. -/
def text (w : Surroundings) (path : String) : Except CommandError String :=
  match w.files path with
  | .ok (.text s) => .ok s
  | .ok (.archive _) => .error (.file .notText)
  | .error f => .error (.file f)

/-- The snapshot that a file holds. -/
def snapshot (w : Surroundings) (path : String) : Except CommandError Snapshot := do
  let text ← w.text path
  match (Json.parse text).bind (Snapshot.ofJson? w.freshId) with
  | none => .error (.notGraph path)
  | some parts => .ok parts

theorem perform_read (w : Surroundings) (path : String) :
    (Action.read path).perform w.files = (w.text path, []) := by
  show (Action.read path).run.perform w.files = _
  rw [Action.read, ExceptT.run_mk, Script.perform, text]
  cases w.files path with
  | error f => rfl
  | ok content => cases content <;> rfl

end Surroundings

/-- The commands that change a store. -/
inductive StoreCommand where
  | takeIn (file : String) (merge : Bool)
  | delete (rootId : VertexId) (model : ModelName) (version : Option String)

namespace StoreCommand

/-- The command as the program reads it. -/
def command : StoreCommand → GraphCommand
  | .takeIn file merge => .takeIn file merge
  | .delete rootId m version => .delete rootId m version

/-- How a change ends, whatever it answers. -/
def ended (r : Except ChangeFault α × Store) : Except CommandError Unit × Store :=
  ((r.1.mapError .change).map fun _ => (), r.2)

/-- What a command makes of a store. -/
def change (w : Surroundings) (s : Store) : StoreCommand → Except CommandError Unit × Store
  | .takeIn file merge =>
    match w.snapshot file with
    | .error e => (.error e, s)
    | .ok incoming => ended (s.takeIn incoming merge)
  | .delete rootId m version =>
    match w.settings.context with
    | .error e => (.error (.settings e), s)
    | .ok ctx => ended (s.deleteInstance ctx rootId m.id m.version version)

/-! ## What a command writes -/

/-- An action at a path ends and writes as a change of the store ends: after a
success it has written the archive of the changed store, after a failure nothing. -/
def EndsAs (files : String → Except FileFault FileContent) (path : String) (x : Action β)
    (r : Except CommandError Unit × Store) : Prop :=
  (x.perform files).1.map (fun _ => ()) = r.1 ∧
    (x.perform files).2 = match r.1 with
      | .ok _ => [(path, .archive r.2.archive)]
      | .error _ => []

theorem endsAs_keep (o : OpenStore) (r : Except ChangeFault α × Store) (f : α → Action β)
    (hf : ∀ a, ∃ b, (f a).perform files = (.ok b, [])) :
    EndsAs files o.path (o.keep r >>= f) (ended r) := by
  obtain ⟨r, s⟩ := r
  cases r with
  | error e => exact ⟨rfl, rfl⟩
  | ok a =>
      obtain ⟨b, hb⟩ := hf a
      have hkeep : (o.keep (.ok a, s)).perform files = (.ok a, [(o.path, .archive s.archive)]) :=
        rfl
      rw [EndsAs, Action.perform_bind_ok hkeep, hb]
      exact ⟨rfl, rfl⟩

/-- A command ends and writes as the change of the store. -/
theorem endsAs_change (c : StoreCommand) (w : Surroundings) (format : Format) (o : OpenStore) :
    EndsAs w.files o.path (c.command.run w.freshId format w.settings o) (c.change w o.store) := by
  cases c with
  | takeIn file merge =>
      have hread := w.perform_read file
      rw [command, GraphCommand.run, change, Surroundings.snapshot]
      cases htext : w.text file with
      | error e =>
          rw [htext] at hread
          rw [EndsAs, Action.perform_bind_error hread]
          exact ⟨rfl, rfl⟩
      | ok text =>
          rw [htext] at hread
          rw [EndsAs, Action.perform_bind_ok hread]
          cases hparts : (Json.parse text).bind (Snapshot.ofJson? w.freshId) with
          | none =>
            simp only [bind, Except.bind, hparts]
            exact ⟨rfl, rfl⟩
          | some incoming =>
              simp only [bind, Except.bind, hparts]
              exact endsAs_keep o (o.store.takeIn incoming merge) _ fun _ => ⟨_, rfl⟩
  | delete rootId m version =>
      rw [command, GraphCommand.run, change]
      cases hctx : w.settings.context with
      | error e => exact ⟨rfl, rfl⟩
      | ok ctx =>
          have hbuilt : Action.perform w.files (Action.ofExcept CommandError.settings
              (.ok ctx : Except SettingsError Context)) = (.ok ctx, []) := rfl
          rw [EndsAs, Action.perform_bind_ok hbuilt]
          exact endsAs_keep o _ _ fun _ => ⟨_, rfl⟩

end StoreCommand

end CommandLine

end Inventory
