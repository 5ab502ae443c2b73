import PartialUpdate.FileSystem.Atomic
import PartialUpdate.Proofs.FileSystem.Directories

/-!
The temporary file of a write: where it lies, how it is written and moved, and how it is taken away.
Its path leads beside the file, never to it, so all that happens to it leaves the file alone.
-/

set_option autoImplicit false

namespace PartialUpdate.FileSystem

section
variable {fs : FileSystem} {path : String} {place other : Location}

theorem origin_append (given : path ≠ "") (suffix : String) :
    fs.origin (path ++ suffix) = fs.origin path := by
  have short : path.toList <+: (path ++ suffix).toList := by
    rw [String.toList_append]
    exact List.prefix_append ..
  rw [← origin_of_front short (by simpa using given), String.ofList_toList]

theorem suffixed_ne (last : String) {step : String} (short : step.length < 4) :
    last ++ ".tmp" ≠ step := by
  rintro rfl
  have length : (last ++ ".tmp").length = last.length + 4 := String.length_append ..
  omega

/-- A step with a suffix names something in the directory that the steps before it lead to. -/
theorem leads_suffixed {before : List String} {last : String}
    (longer : Path.steps path = before ++ [last ++ ".tmp"]) (leads : fs.Leads path place) :
    ∃ middle, fs.walk (fs.origin path) before = .ok middle ∧ place = middle ++ [last ++ ".tmp"] := by
  obtain ⟨target, found, rfl⟩ := leads
  cases locate_ok_iff.1 found with
  | origin _ none =>
    rw [none] at longer
    exact absurd longer.symm (by simp)
  | @last front step middle _ shown reached =>
    obtain ⟨rfl, same⟩ := List.append_inj' (shown.symm.trans longer) rfl
    cases same
    refine ⟨middle, reached, ?_⟩
    rw [lastTarget, if_neg (suffixed_ne last (by decide)), if_neg (suffixed_ne last (by decide))]

/-- Where a path leads, from where the steps before its end lead. -/
theorem leads_from {before : List String} {last : String} {middle : Location}
    (same : Path.steps path = before ++ if last = "" then [] else [last])
    (passed : fs.walk (fs.origin path) before = .ok middle) (leads : fs.Leads path other) :
    other = middle ∨ other = middle.dropLast ∨ other = middle ++ [last] := by
  obtain ⟨target, found, rfl⟩ := leads
  cases locate_ok_iff.1 found with
  | origin _ none =>
    rw [none] at same
    obtain ⟨rfl, _⟩ := List.append_eq_nil_iff.1 same.symm
    cases passed
    exact .inl rfl
  | @last front step reached _ shown walked =>
    by_cases empty : last = ""
    · -- A slash stands at the end, so the step before it is the last one.
      rw [if_pos empty, List.append_nil] at same
      rw [← same, shown, walk_append, bind_of_ok walked] at passed
      exact .inl (walk_last _ passed).symm
    · rw [if_neg empty] at same
      obtain ⟨rfl, step_eq⟩ := List.append_inj' (shown.symm.trans same) rfl
      cases step_eq
      cases walked.symm.trans passed
      rw [lastTarget]
      split
      next => exact .inl rfl
      next =>
        split
        next => exact .inr (.inl rfl)
        next => exact .inr (.inr rfl)

/-- The temporary file stands apart from the file. -/
theorem temporary_ne (leads : fs.Leads (temporaryPath path) place) (leads' : fs.Leads path other) :
    other ≠ place := by
  obtain ⟨before, last, same, longer⟩ :=
    Path.steps_append (by decide : '/' ∉ ".tmp".toList) (by decide) path
  obtain ⟨middle, passed, rfl⟩ := leads_suffixed longer leads
  rw [origin_append leads'.admits.given] at passed
  have length : (last ++ ".tmp").length = last.length + 4 := String.length_append ..
  rcases leads_from same passed leads' with rfl | rfl | rfl <;> intro met
  · simpa using congrArg List.length met
  · have shorter := congrArg List.length met
    simp at shorter
  · have := congrArg String.length (List.singleton_inj.1 (List.append_cancel_left met))
    omega

end

structure Lands (written : FileSystem) (path : String) (place : Location) (bytes : List UInt8)
    (goal : Target) (moved : FileSystem) : Prop where
  leads : written.locate path = .ok goal
  fits : checkName goal = .ok ()
  bare : goal.slash = false
  free : written.find? goal.location ≠ some .directory
  moved : ∃ erased, Changed written place none erased ∧
    Changed erased goal.location (some (.file bytes)) moved

inductive Moving (faults : Faults) (fs : FileSystem) (path : String) (bytes : List UInt8) :
    FileSystem × Except SystemError Unit → Prop where
  | unopened {error : SystemError} :
      faults.strike .openFile (fs.openFile (temporaryPath path)) = .error error →
      Moving faults fs path bytes (fs, .error error)
  | unfinished {place : Location} {held : List UInt8} {after : FileSystem} {error : SystemError} :
      Opens fs (temporaryPath path) place → Changed fs place (some (.file held)) after →
      error.problem ≠ .nullCharacter → Moving faults fs path bytes (after, .error error)
  | finished {place : Location} {goal : Target} {written moved : FileSystem} :
      Opens fs (temporaryPath path) place → Changed fs place (some (.file bytes)) written →
      Lands written path place bytes goal moved → Moving faults fs path bytes (moved, .ok ())

section
variable {faults : Faults} {fs : FileSystem} {path : String} {bytes : List UInt8} {place : Location}

theorem strike_ne_null {α : Type} {call : Call} {value : α} {error : SystemError}
    (failed : faults.strike call (.ok value) = .error error) : error.problem ≠ .nullCharacter :=
  fun null => (Faults.strike_null_iff.1 ⟨error, failed, null⟩).elim fun _ own => nomatch own.1

theorem temporary_null_iff : '\x00' ∈ (temporaryPath path).toList ↔ '\x00' ∈ path.toList := by
  rw [temporaryPath, String.toList_append, List.mem_append]
  exact or_iff_left (by decide)

/-- The temporary file is out of reach just where the file is. -/
theorem opening_null_iff : (∃ error,
    faults.strike .openFile (fs.openFile (temporaryPath path)) = .error error ∧
      error.problem = .nullCharacter) ↔ '\x00' ∈ path.toList := by
  rw [Faults.strike_null_iff, openFile_null_iff, temporary_null_iff]

theorem rename_lands {written moved : FileSystem} (opens : Opens fs (temporaryPath path) place)
    (changed : Changed fs place (some (.file bytes)) written)
    (done : written.rename (temporaryPath path) path = .ok moved) :
    ∃ goal, Lands written path place bytes goal moved := by
  obtain ⟨source, goal, held, located, found, leads, fits, bare, free, rfl⟩ := rename_ok done
  cases found.symm.trans (opens.status changed)
  obtain ⟨target, opened, _, _, rfl⟩ := opens.leads
  cases located.symm.trans (locate_keeps (changed.keepsDirectories opens.free) opened)
  have inside : goal.location ≠ [] := fun root => free (root ▸ written.find?_root)
  exact ⟨goal, leads, fits, bare, free, _, changed_erase written opens.inside,
    changed_put _ _ inside⟩

theorem writeAndMove_moving : Moving faults fs path bytes (fs.writeAndMove faults path bytes) := by
  rw [writeAndMove]
  split
  next error failed => exact .unopened failed
  next opened place ready =>
    obtain ⟨opens, rfl⟩ := openFile_ok_iff.1 (Faults.strike_ok_iff.1 ready).2
    -- Emptied and written, the temporary file is all that has changed so far.
    have changed : ∀ held, Changed fs place (some (.file held))
        ((fs.put place (.file [])).put place (.file held)) := fun held =>
      (changed_put fs _ opens.inside).again (changed_put _ _ opens.inside)
    split
    next error failed => exact .unfinished opens (changed _) (strike_ne_null failed)
    next written wrote =>
      cases (Faults.strike_ok_iff.1 wrote).2
      split
      next error failed => exact .unfinished opens (changed _) (strike_ne_null failed)
      next =>
        split
        next error failed =>
          refine .unfinished opens (changed _) fun null => ?_
          obtain ⟨own, failed, null⟩ := Faults.strike_null_iff.1 ⟨error, failed, null⟩
          have plain := opens.leads_to.admits.plain
          exact rename_ne_null plain (mt temporary_null_iff.2 plain) failed null
        next moved done =>
          obtain ⟨goal, lands⟩ := rename_lands opens (changed _) (Faults.strike_ok_iff.1 done).2
          exact .finished opens (changed _) lands

end

section
variable {path : String} {bytes : List UInt8} {place : Location}

namespace Lands
variable {written moved : FileSystem} {goal : Target}

theorem keepsDirectories (lands : Lands written path place bytes goal moved) {held : List UInt8}
    (there : written.find? place = some (.file held)) : KeepsDirectories written moved := by
  obtain ⟨erased, first, second⟩ := lands.moved
  refine (first.keepsDirectories (by simp [there])).trans (second.keepsDirectories ?_)
  rw [first.find?]
  split
  next => exact nofun
  next => exact lands.free

theorem leads_to (lands : Lands written path place bytes goal moved) {held : List UInt8}
    (there : written.find? place = some (.file held)) : moved.Leads path goal.location :=
  ⟨goal, locate_keeps (lands.keepsDirectories there) lands.leads, rfl⟩

theorem find? (lands : Lands written path place bytes goal moved) (location : Location) :
    moved.find? location = if location = goal.location then some (.file bytes)
      else if location = place then none else written.find? location := by
  obtain ⟨erased, first, second⟩ := lands.moved
  rw [second.find?, first.find?]

theorem read (lands : Lands written path place bytes goal moved) {held : List UInt8}
    (there : written.find? place = some (.file held)) : moved.read path = .ok bytes := by
  have found : moved.status path = .ok (.file bytes) := by
    refine status_ok_iff.2 ⟨goal, ?_, lands.fits, ?_, by simp [lands.bare]⟩
    · exact locate_keeps (lands.keepsDirectories there) lands.leads
    · rw [lands.find?, if_pos rfl]
  rw [FileSystem.read, report_ok_iff, bind_of_ok found]
  rfl

end Lands

end

/-- No call that takes a temporary file away fails by itself. -/
structure CleansUp (faults : Faults) (path : String) : Prop where
  find : faults.error? (.find (temporaryPath path)) = none
  remove : faults.error? .remove = none

def KeptBeside (before : FileSystem) (path : String) (after : FileSystem) : Prop :=
  ∀ location, ¬ after.Leads (temporaryPath path) location → Kept before after location

section
variable {faults : Faults} {fs made : FileSystem} {path : String} {place : Location}

theorem cleanUp_cases (error : SystemError) :
    fs.cleanUp faults path error = (fs, .failed path error) ∨
    (∃ other, fs.cleanUp faults path error = (fs, .system other)) ∨
    ∃ place held, fs.Leads (temporaryPath path) place ∧ fs.find? place = some (.file held) ∧
      fs.cleanUp faults path error = (fs.erase place, .failed path error) := by
  rw [cleanUp]
  split
  next =>
    split
    next cleaned done =>
      obtain ⟨place, held, leads, found, rfl⟩ := remove_ok_iff.1 (Faults.strike_ok_iff.1 done).2
      exact .inr (.inr ⟨place, held, leads, status_at leads found, rfl⟩)
    next other _ => exact .inr (.inl ⟨other, rfl⟩)
  next => exact .inl rfl

theorem KeptBeside.cleanUp {before : FileSystem} (kept : KeptBeside before path fs)
    (faults : Faults) (error : SystemError) : KeptBeside before path (fs.cleanUp faults path error).1 := by
  rcases cleanUp_cases error with same | ⟨other, same⟩ | ⟨place, held, leads, found, same⟩
  · rw [same]
    exact kept
  · rw [same]
    exact kept
  · have inside : place ≠ [] := by rintro rfl; cases found
    have changed := changed_erase fs inside
    have keeps := changed.keepsDirectories (by simp [found])
    rw [same]
    intro location beside
    have apart : location ≠ place := fun same => beside (same ▸ leads.keeps keeps)
    exact (kept location fun led => beside (led.keeps keeps)).trans (.inl (changed.elsewhere apart))

theorem Extended.keptBeside (extended : Extended fs made) (path : String) :
    KeptBeside fs path made := fun location _ => extended.kept location

theorem KeptBeside.changed {before after : FileSystem} {entry : Option Entry}
    (kept : KeptBeside before path fs) (opens : Opens fs (temporaryPath path) place)
    (changed : Changed fs place entry after) : KeptBeside before path after := by
  intro location beside
  have apart : location ≠ place :=
    fun same => beside (same ▸ opens.leads_to.keeps (opens.keepsDirectories changed))
  exact (kept location fun led => beside (led.keeps (opens.keepsDirectories changed))).trans
    (.inl (changed.elsewhere apart))

section
variable (clean : CleansUp faults path) (error : SystemError)
include clean

theorem cleanUp_nothing (nothing : fs.exists? (temporaryPath path) = false) :
    fs.cleanUp faults path error = (fs, .failed path error) := by
  rw [cleanUp, finds, clean.find, nothing]
  rfl

theorem cleanUp_file {held : List UInt8} (leads : fs.Leads (temporaryPath path) place)
    (found : fs.status (temporaryPath path) = .ok (.file held)) :
    fs.cleanUp faults path error = (fs.erase place, .failed path error) := by
  have removed := remove_ok_iff.2 ⟨place, held, leads, found, rfl⟩
  rw [cleanUp, finds, clean.find, exists?_iff.2 ⟨_, found⟩,
    Faults.strike_ok_iff.2 ⟨clean.remove, removed⟩]
  rfl

theorem cleanUp_directory (found : fs.status (temporaryPath path) = .ok .directory) :
    ∃ other, fs.cleanUp faults path error = (fs, .system other) := by
  refine ⟨⟨.isDirectory, temporaryPath path, none⟩, ?_⟩
  rw [cleanUp, finds, clean.find, exists?_iff.2 ⟨_, found⟩, Faults.strike, clean.remove,
    remove_directory found]
  rfl

end

end

end PartialUpdate.FileSystem
