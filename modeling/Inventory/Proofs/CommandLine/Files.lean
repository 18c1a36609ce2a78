import Inventory.CommandLine.Run
import Inventory.Proofs.Outcome

/-!
# CommandLine — files on a disk

A write puts a file where none or another one stood, and a directory is made where
nothing stood. So whatever a script does, what stands on a disk still stands there
afterwards, and a path that led somewhere leads there still. What is written is
what is read next; in particular settings that are saved are loaded again.
-/

namespace Inventory

namespace Disk

/-! ## Places -/

variable {d d' : Disk} {place here : List String} {path : String} {c : FileContent}

theorem entry?_of_ne_nil (h : place ≠ []) : d.entry? place = d.get? (key place) := by
  cases place with
  | nil => exact absurd rfl h
  | cons name names => rfl

/-- Changing what stands at a place changes it there only. -/
theorem entry?_put (x : DiskEntry) :
    entry? (d.put (key place) x) here =
      if here ≠ [] ∧ key here = key place then some x else d.entry? here := by
  by_cases hhere : here = []
  · rw [hhere]
    rfl
  · rw [entry?_of_ne_nil hhere, entry?_of_ne_nil hhere, Table.get?_put]
    simp only [ne_eq, hhere, not_false_eq_true, true_and]

/-- A place is known by its key. -/
theorem entry?_of_key (hplace : place ≠ []) (h : here ≠ [] ∧ key here = key place) :
    d.entry? here = d.entry? place := by
  rw [entry?_of_ne_nil h.1, entry?_of_ne_nil hplace, h.2]

theorem ne_nil_of_entry?_ne (h : d.entry? place ≠ some .directory) : place ≠ [] := by
  rintro rfl
  exact h rfl

/-! ## What stays -/

/-- What stands on a disk still stands on another one, only that a file may hold
something else. -/
structure Keeps (d d' : Disk) : Prop where
  directory : ∀ {place}, d.entry? place = some .directory → d'.entry? place = some .directory
  file : ∀ {place c}, d.entry? place = some (.file c) → ∃ c', d'.entry? place = some (.file c')

theorem Keeps.refl (d : Disk) : d.Keeps d := ⟨id, fun h => ⟨_, h⟩⟩

theorem Keeps.trans {d'' : Disk} (h : d.Keeps d') (h' : d'.Keeps d'') : d.Keeps d'' where
  directory hd := h'.directory (h.directory hd)
  file hf := by
    obtain ⟨_, hf'⟩ := h.file hf
    exact h'.file hf'

/-- A file may be put where no directory stands. -/
theorem keeps_putFile (h : d.entry? place ≠ some .directory) :
    d.Keeps (d.put (key place) (.file c)) where
  directory {here} hd := by
    rw [entry?_put, if_neg fun hkey => ?_]
    · exact hd
    · exact h (entry?_of_key (ne_nil_of_entry?_ne h) hkey ▸ hd)
  file {here _} hf := by
    rw [entry?_put]
    split
    · exact ⟨c, rfl⟩
    · exact ⟨_, hf⟩

/-- A directory may be put where nothing stands. -/
theorem keeps_putDirectory (h : d.entry? place = none) :
    d.Keeps (d.put (key place) .directory) := by
  have hplace : place ≠ [] := by
    rintro rfl
    cases h
  refine ⟨fun {here} hd => ?_, fun {here c} hf => ⟨c, ?_⟩⟩
  · rw [entry?_put]
    split
    · rfl
    · exact hd
  · rw [entry?_put, if_neg fun hkey => ?_]
    · exact hf
    · cases h.symm.trans (entry?_of_key hplace hkey ▸ hf)

section

variable (hk : d.Keeps d')

include hk

theorem Keeps.step {name : String} {there : List String} (h : d.step here name = .ok there) :
    d'.step here name = .ok there := by
  rw [Disk.step] at h ⊢
  split at h
  · cases h
  · cases h
  · next hd =>
    rw [hk.directory hd]
    exact h

theorem Keeps.steps {names : List String} (h : names.foldlM d.step here = .ok place) :
    names.foldlM d'.step here = .ok place := by
  induction names generalizing here with
  | nil => exact h
  | cons name names ih =>
    obtain ⟨there, hstep, hrest⟩ := Outcome.foldlM_cons_eq_ok.mp h
    exact Outcome.foldlM_cons_eq_ok.mpr ⟨there, hk.step hstep, ih hrest⟩

/-- A path that leads to a place still leads there. -/
theorem Keeps.locate (h : d.locate path = .ok place) : d'.locate path = .ok place := by
  rw [Disk.locate, follow] at h ⊢
  split at h
  · cases h
  · next hempty =>
    split at h
    · cases h
    · next hlong =>
      rw [if_neg hempty, if_neg hlong]
      exact hk.steps h

end

/-! ## Single operations -/

theorem write_eq_ok (h : d.write path c = .ok d') :
    ∃ place, Path.endsInSlash path = false ∧ d.locate path = .ok place ∧
      d.entry? place ≠ some .directory ∧ d' = d.put (key place) (.file c) := by
  rw [write] at h
  split at h
  · obtain ⟨_, -, h⟩ := Outcome.bind_eq_ok.mp h
    cases h
  · next hslash =>
    obtain ⟨place, hplace, h⟩ := Outcome.bind_eq_ok.mp h
    split at h
    · cases h
    · next hentry =>
      cases h
      exact ⟨place, Bool.eq_false_iff.mpr hslash, hplace, hentry, rfl⟩

theorem makeDirectory_eq_ok (h : d.makeDirectory path = .ok d') :
    ∃ place, d.locate path = .ok place ∧ d.entry? place = none ∧
      d' = d.put (key place) .directory := by
  obtain ⟨place, hplace, h⟩ := Outcome.bind_eq_ok.mp h
  split at h
  · cases h
  · next hentry =>
    cases h
    exact ⟨place, hplace, hentry, rfl⟩

theorem keeps_write (h : d.write path c = .ok d') : d.Keeps d' := by
  obtain ⟨place, -, -, hentry, rfl⟩ := write_eq_ok h
  exact keeps_putFile hentry

theorem keeps_makeDirectory (h : d.makeDirectory path = .ok d') : d.Keeps d' := by
  obtain ⟨place, -, hentry, rfl⟩ := makeDirectory_eq_ok h
  exact keeps_putDirectory hentry

/-- What is written at a path is read there. -/
theorem read_of_write (h : d.write path c = .ok d') : d'.read path = .ok c := by
  have hkeeps := keeps_write h
  obtain ⟨place, hslash, hplace, hentry, rfl⟩ := write_eq_ok h
  have hfile : entry? (d.put (key place) (.file c)) place = some (.file c) :=
    (entry?_put _).trans (if_pos ⟨ne_nil_of_entry?_ne hentry, rfl⟩)
  rw [read, hkeeps.locate hplace]
  simp only [bind, Except.bind, hfile, hslash]
  rfl

theorem read_of_makeDirectory (h : d.makeDirectory path = .ok d') :
    d'.read path = .error .isDirectory := by
  have hkeeps := keeps_makeDirectory h
  obtain ⟨place, hplace, hentry, rfl⟩ := makeDirectory_eq_ok h
  have hdirectory : entry? (d.put (key place) .directory) place = some .directory := by
    rw [entry?_put]
    split
    · rfl
    · next hne =>
      obtain rfl : place = [] := by simpa using hne
      rfl
  rw [read, hkeeps.locate hplace]
  simp only [bind, Except.bind, hdirectory]

end Disk

/-! ## Scripts -/

namespace Script

variable {α β : Type} {d : Disk}

theorem run_bind (s : Script α) (f : α → Script β) (d : Disk) :
    (s.bind f).run d = (f (s.run d).1).run (s.run d).2 := by
  induction s generalizing d with
  | done a => rfl
  | read path next ih => exact ih (d.read path) d
  | write path c next ih => exact ih _ _
  | makeDirectory path next ih => exact ih _ _

theorem keeps_changed {r : Except FileFault Disk} (h : ∀ {d'}, r = .ok d' → d.Keeps d') :
    d.Keeps (d.changed r).2 := by
  cases r with
  | ok d' => exact h rfl
  | error f => exact .refl d

/-- **No script loses anything.** Whatever a script does, every directory is still
there afterwards, and every file, though it may hold something else. -/
theorem keeps_run (s : Script α) (d : Disk) : d.Keeps (s.run d).2 := by
  induction s generalizing d with
  | done a => exact .refl d
  | read path next ih => exact ih (d.read path) d
  | write path c next ih => exact (keeps_changed Disk.keeps_write).trans (ih _ _)
  | makeDirectory path next ih => exact (keeps_changed Disk.keeps_makeDirectory).trans (ih _ _)

/-! ### Directories -/

theorem run_isDirectory (path : String) (d : Disk) :
    (isDirectory path).run d = (decide (d.read path = .error .isDirectory), d) := by
  rw [isDirectory, run]
  split
  · next h => rw [run, h]; rfl
  · next h => rw [run, decide_eq_false h]

/-- A fault is none when the directory is there. -/
theorem read_of_settled {path : String} {f : FileFault}
    (h : ((makeFirst.settled path (.error f)).run d).1 = .ok ()) :
    ((makeFirst.settled path (.error f)).run d).2.read path = .error .isDirectory := by
  rw [makeFirst.settled, run_bind, run_isDirectory] at h ⊢
  dsimp only at h ⊢
  split at h
  · next hthere => exact of_decide_eq_true hthere
  · cases h

/-- Where the first directory of a list is made without a fault, it is there. -/
theorem read_of_makeFirst {path : String} {above : List String}
    (h : ((makeFirst (path :: above)).run d).1 = .ok ()) :
    ((makeFirst (path :: above)).run d).2.read path = .error .isDirectory := by
  rw [makeFirst, run] at h ⊢
  cases hmake : d.makeDirectory path with
  | ok d' =>
    simp only [Disk.changed, run]
    exact Disk.read_of_makeDirectory hmake
  | error f =>
    simp only [hmake, Disk.changed] at h ⊢
    split at h
    · next heq => cases heq
    · -- the directory lies in none yet, so those further on are made first
      rw [run_bind] at h ⊢
      generalize (makeFirst above).run d = r at h ⊢
      obtain ⟨_ | _, d₁⟩ := r
      · cases h
      · dsimp only at h ⊢
        rw [run] at h ⊢
        cases hagain : d₁.makeDirectory path with
        | ok d₂ =>
          simp only [Disk.changed, makeFirst.settled, run]
          exact Disk.read_of_makeDirectory hagain
        | error f =>
          simp only [hagain, Disk.changed] at h ⊢
          exact read_of_settled h
    · next heq =>
      cases heq
      exact read_of_settled h

/-- **Directories are made.** Where making a directory with those it lies in ends
without a fault, the directory is there. -/
theorem read_of_makeDirectories {path : String} (hpath : path ≠ "")
    (h : ((makeDirectories path).run d).1 = .ok ()) :
    ((makeDirectories path).run d).2.read path = .error .isDirectory := by
  rw [makeDirectories, Path.ancestors, Path.upwards, if_neg hpath] at h ⊢
  exact read_of_makeFirst h

end Script

/-! ## Settings -/

namespace CommandLine

variable {α β ε : Type} {d d' : Disk}

/-- What an action ends with on a disk, and the disk after it. -/
def Action.runOn (d : Disk) (x : Action α) : Except CommandError α × Disk := x.run.run d

namespace Action

theorem runOn_bind (x : Action α) (f : α → Action β) :
    (x >>= f).runOn d =
      match x.runOn d with
      | (.ok a, d') => (f a).runOn d'
      | (.error e, d') => (.error e, d') := by
  have hbind := Script.run_bind x.run (ExceptT.bindCont f) d
  refine hbind.trans ?_
  rw [runOn]
  rcases x.run.run d with ⟨_ | _, d'⟩
  · rfl
  · rfl

theorem runOn_bind_eq_ok {x : Action α} {f : α → Action β} {b : β}
    (h : (x >>= f).runOn d = (.ok b, d')) :
    ∃ a d₁, x.runOn d = (.ok a, d₁) ∧ (f a).runOn d₁ = (.ok b, d') := by
  rw [runOn_bind] at h
  split at h
  · next a d₁ hx => exact ⟨a, d₁, hx, h⟩
  · cases h

/-- A write that ends without a fault has put the file on the disk. -/
theorem write_of_runOn {path : String} {c : FileContent} {wrap : FileFault → CommandError}
    (h : (write path c wrap).runOn d = (.ok (), d')) : d.write path c = .ok d' := by
  have hrun : (((d.changed (d.write path c)).1.mapError wrap), (d.changed (d.write path c)).2) =
      (.ok (), d') := h
  cases hwrite : d.write path c with
  | ok d₁ =>
    rw [hwrite] at hrun
    cases hrun
    rfl
  | error f =>
    rw [hwrite] at hrun
    cases hrun

theorem runOn_isPresent {path : String} {c : FileContent} (h : d.read path = .ok c) :
    (isPresent path).runOn d = (.ok true, d) := by
  have hpresent : (Script.isPresent path).run d = (true, d) := by
    rw [Script.isPresent, Script.run, h]
    rfl
  rw [runOn, isPresent, ExceptT.run_mk, Script.run_bind, hpresent]
  rfl

theorem runOn_read {path text : String} (h : d.read path = .ok (.text text)) :
    (read path).runOn d = (.ok text, d) := by
  rw [runOn, read, ExceptT.run_mk, Script.run, h]
  rfl

end Action

/-- Settings that are saved without a fault can be written, and their text is read at
the path. -/
theorem read_of_saveSettings {path : String} {s : Settings}
    (h : (saveSettings path s).runOn d = (.ok (), d')) :
    s.writable = .ok () ∧ d'.read path = .ok (.text s.toText) := by
  obtain ⟨d₁, hsave⟩ : ∃ d₁, ((Action.ofExcept .settings s.writable) >>= fun _ =>
      Action.write path (.text s.toText) .file).runOn d₁ = (.ok (), d') := by
    rw [saveSettings] at h
    dsimp only at h
    split at h
    · obtain ⟨_, d₁, -, h⟩ := Action.runOn_bind_eq_ok h
      exact ⟨d₁, h⟩
    · exact ⟨d, h⟩
  obtain ⟨_, d₂, hwritable, hwrite⟩ := Action.runOn_bind_eq_ok hsave
  exact ⟨Outcome.mapError_eq_ok.mp (congrArg Prod.fst hwritable),
    Disk.read_of_write (Action.write_of_runOn hwrite)⟩

/-- **What is saved is loaded.** Where saving settings ends without a fault, loading
them from the same path gives what is left of them when they are read from their
text, and changes nothing. -/
theorem loadSettings_of_saveSettings {path : String} {s : Settings}
    (h : (saveSettings path s).runOn d = (.ok (), d')) :
    (loadSettings path).runOn d' =
      (match s.reloaded with
        | .error .unreadable => .error (.invalidSettings path)
        | loaded => loaded.mapError .settings, d') := by
  obtain ⟨hwritable, hread⟩ := read_of_saveSettings h
  have hreloaded : s.reloaded = Settings.load s.toText := by
    rw [Settings.reloaded, hwritable]
    rfl
  rw [loadSettings, Action.runOn_bind, Action.runOn_isPresent hread, hreloaded]
  dsimp only
  rw [if_neg (by decide), Action.runOn_bind, Action.runOn_read hread]
  dsimp only
  generalize Settings.load s.toText = loaded
  cases loaded with
  | ok s => rfl
  | error e => cases e <;> rfl

end CommandLine

end Inventory
