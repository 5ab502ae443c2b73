import PartialUpdate.Proofs.FileSystem.Temporary

/-!
Writing a file in one step. A write ends in one of a few ways, and each of them is confined to the
path and its temporary path. What it promises beyond that, it keeps just if its way is clear.
-/

set_option autoImplicit false

namespace PartialUpdate.FileSystem

/-- What a write promises. It is done, and the path leads to a file with the bytes; or it failed, and
where the path leads all is as it was. In both cases there are no other files than before, and they
hold what they held: the temporary file is gone. -/
structure Atomic (before : FileSystem) (path : String) (bytes : List UInt8)
    (outcome : FileSystem × Except WriteError Unit) : Prop where
  settled : outcome.2 = .ok () ∧ outcome.1.read path = .ok bytes ∨
    (∃ error, outcome.2 = .error (.failed path error)) ∧
      ∀ location, outcome.1.Leads path location → outcome.1.find? location = before.find? location
  others : ∀ location, ¬ outcome.1.Leads path location →
    outcome.1.file? location = before.file? location

/-- What holds of every write, however it ends: the path leads to a file with the bytes once it is
done, and until then to what was there; beside it only the temporary path was touched, and only
directories were made. -/
structure Confined (before : FileSystem) (path : String) (bytes : List UInt8)
    (outcome : FileSystem × Except WriteError Unit) : Prop where
  stored : outcome.2 = .ok () → outcome.1.read path = .ok bytes
  kept : ∀ location, ¬ outcome.1.Leads (temporaryPath path) location →
    (outcome.2 = .ok () → ¬ outcome.1.Leads path location) → Kept before outcome.1 location

def prepared (faults : Faults) (fs : FileSystem) (path : String) :
    FileSystem × Except SystemError Unit :=
  fs.attemptDirectories faults (Path.directory path) true

/-- A file can be written in one step: its directories can be made, its path has no null character,
nothing is at its temporary path, and it is no directory that was made just now. -/
structure Ready (faults : Faults) (fs : FileSystem) (path : String) : Prop where
  made : (prepared faults fs path).2 = .ok ()
  plain : '\x00' ∉ path.toList
  free : (prepared faults fs path).1.exists? (temporaryPath path) = false
  steady : ∀ location, (prepared faults fs path).1.Leads path location →
    (prepared faults fs path).1.find? location = fs.find? location

/-- How a write may end: its directories were not made, its path does not reach the system, the
temporary file was not moved and is taken away, or the file is in its place. -/
inductive Ending (faults : Faults) (fs : FileSystem) (path : String) (bytes : List UInt8) :
    FileSystem × Except WriteError Unit → Prop where
  | astray {made : FileSystem} {error : SystemError} :
      prepared faults fs path = (made, .error error) →
      Ending faults fs path bytes (made, .error (.system error))
  | outside {made : FileSystem} {error : SystemError} :
      prepared faults fs path = (made, .ok ()) → '\x00' ∈ path.toList →
      Ending faults fs path bytes (made, .error (.system error))
  | unopened {made : FileSystem} {error : SystemError} :
      prepared faults fs path = (made, .ok ()) → '\x00' ∉ path.toList →
      Ending faults fs path bytes ((made.cleanUp faults path error).map id .error)
  | unfinished {made after : FileSystem} {place : Location} {held : List UInt8}
      {error : SystemError} : prepared faults fs path = (made, .ok ()) →
      Opens made (temporaryPath path) place → Changed made place (some (.file held)) after →
      Ending faults fs path bytes ((after.cleanUp faults path error).map id .error)
  | finished {made written moved : FileSystem} {place : Location} {goal : Target} :
      prepared faults fs path = (made, .ok ()) → Opens made (temporaryPath path) place →
      Changed made place (some (.file bytes)) written →
      Lands written path place bytes goal moved → Ending faults fs path bytes (moved, .ok ())

section
variable {faults : Faults} {fs made : FileSystem} {path : String} {bytes : List UInt8}
  {place : Location}

theorem attemptWrite_ending (faults : Faults) (fs : FileSystem) (path text : String) :
    Ending faults fs path (Utf8.encode text) (fs.attemptWrite faults path text) := by
  rw [attemptWrite]
  split
  next made error failed => exact .astray failed
  next made done =>
    have moving : Moving faults made path (Utf8.encode text)
        (made.writeAndMove faults path (Utf8.encode text)) := writeAndMove_moving
    cases ended : made.writeAndMove faults path (Utf8.encode text) with
    | mk after result =>
      rw [ended] at moving
      cases moving with
      | @unopened error failed =>
        by_cases outside : '\x00' ∈ path.toList
        · obtain ⟨own, failed', null⟩ := opening_null_iff.2 outside
          cases failed.symm.trans failed'
          simpa only [null, if_true] using .outside done outside
        · have proper : error.problem ≠ .nullCharacter :=
            fun null => outside (opening_null_iff.1 ⟨error, failed, null⟩)
          simpa only [proper, if_false] using .unopened done outside
      | unfinished opens changed plain =>
        simpa only [plain, if_false] using .unfinished done opens changed
      | finished opens changed lands => exact .finished done opens changed lands

theorem extended_of_prepared {result : Except SystemError Unit}
    (prepares : prepared faults fs path = (made, result)) : Extended fs made := by
  have extended : Extended fs (prepared faults fs path).1 := attemptDirectories_extended
  rwa [prepares] at extended

/-- However a write ends, it keeps to its temporary path until the file is in its place. -/
theorem Ending.confined {outcome : FileSystem × Except WriteError Unit}
    (ending : Ending faults fs path bytes outcome) : Confined fs path bytes outcome := by
  cases ending with
  | astray failed =>
    exact ⟨nofun, fun location _ _ => (extended_of_prepared failed).kept location⟩
  | outside done =>
    exact ⟨nofun, fun location _ _ => (extended_of_prepared done).kept location⟩
  | @unopened _ error done =>
    have kept := ((extended_of_prepared done).keptBeside path).cleanUp faults error
    exact ⟨nofun, fun location beside _ => kept location beside⟩
  | @unfinished _ _ _ _ error done opens changed =>
    have written := ((extended_of_prepared done).keptBeside path).changed opens changed
    have kept := written.cleanUp faults error
    exact ⟨nofun, fun location beside _ => kept location beside⟩
  | @finished made written moved place goal done opens changed lands =>
    have there := changed.at_place
    have keeps := (opens.keepsDirectories changed).trans (lands.keepsDirectories there)
    refine ⟨fun _ => lands.read there, fun location beside apart => ?_⟩
    have apart : location ≠ goal.location := fun same => apart rfl (same ▸ lands.leads_to there)
    have beside : location ≠ place := fun same => beside (same ▸ opens.leads_to.keeps keeps)
    have same : moved.find? location = made.find? location := by
      rw [lands.find?, if_neg apart, if_neg beside, changed.elsewhere beside]
    exact ((extended_of_prepared done).kept location).trans (.inl same)

/-- A file that was at the temporary path is lost. -/
theorem not_atomic_of_lost {outcome : FileSystem × Except WriteError Unit} {held : List UInt8}
    (extended : Extended fs made) (there : made.find? place = some (.file held))
    (leads : outcome.1.Leads (temporaryPath path) place) (gone : outcome.1.find? place = none) :
    ¬ Atomic fs path bytes outcome := by
  intro atomic
  have same := atomic.others place fun led => temporary_ne leads led rfl
  rw [← (extended.kept place).file?_eq, file?, file?, gone, there] at same
  cases same

/-- A write that leaves only directories behind keeps its promise unless its path leads to one of
them. -/
theorem atomic_failed_iff {after : FileSystem} {error : SystemError} (extended : Extended fs made)
    (current : after.current = made.current)
    (same : ∀ location, after.find? location = made.find? location) :
    Atomic fs path bytes (after, .error (.failed path error)) ↔
      ∀ location, made.Leads path location → made.find? location = fs.find? location := by
  have keeps : KeepsDirectories made after := .of_same current same
  have keeps' : KeepsDirectories after made :=
    .of_same current.symm fun location => (same location).symm
  constructor
  · rintro ⟨⟨impossible, _⟩ | ⟨_, kept⟩, _⟩ location leads
    · cases impossible
    · exact (same location).symm.trans (kept location (leads.keeps keeps))
  · intro steady
    refine ⟨.inr ⟨⟨error, rfl⟩, fun location leads => ?_⟩, fun location _ => ?_⟩
    · exact (same location).trans (steady location (leads.keeps keeps'))
    · exact (file?_congr (same location)).trans (extended.kept location).file?_eq

theorem not_atomic_system {after : FileSystem} {error : SystemError} :
    ¬ Atomic fs path bytes (after, .error (.system error)) := by
  rintro ⟨⟨impossible, _⟩ | ⟨⟨_, impossible⟩, _⟩, _⟩ <;> cases impossible

theorem ready_iff (done : prepared faults fs path = (made, .ok ())) : Ready faults fs path ↔
    '\x00' ∉ path.toList ∧ made.exists? (temporaryPath path) = false ∧
      ∀ location, made.Leads path location → made.find? location = fs.find? location := by
  have first : (prepared faults fs path).1 = made := congrArg Prod.fst done
  constructor
  · rintro ⟨_, plain, free, steady⟩
    rw [first] at free steady
    exact ⟨plain, free, steady⟩
  · rintro ⟨plain, free, steady⟩
    exact ⟨congrArg Prod.snd done, plain, first.symm ▸ free, first.symm ▸ steady⟩

/-- A path that only goes down leads below all that is made for it. -/
theorem prepared_steady (descends : Path.Descends path) {location : Location}
    (leads : (prepared faults fs path).1.Leads path location) :
    (prepared faults fs path).1.find? location = fs.find? location := by
  have shallow : Shallow (Path.directory path) fs (prepared faults fs path).1 :=
    attemptDirectories_shallow
  refine Decidable.byContradiction fun changed => ?_
  have given : Path.directory path ≠ "" := fun none => changed (by rw [prepared, none]; rfl)
  have near := shallow.near location changed
  have fewer := Path.length_steps_directory leads.admits.given descends.bare
  have front : fs.origin (Path.directory path) = fs.origin path :=
    origin_of_front (Path.isPrefix_split path.toList) (by simpa [Path.directory] using given)
  have origin : (prepared faults fs path).1.origin path = fs.origin path := by
    rw [FileSystem.origin, FileSystem.origin, shallow.current]
  have far := congrArg List.length (leads.eq_of_descends descends)
  rw [origin, List.length_append] at far
  rw [front] at near
  omega

theorem ready_iff_of_descends (descends : Path.Descends path) : Ready faults fs path ↔
    (prepared faults fs path).2 = .ok () ∧ '\x00' ∉ path.toList ∧
      (prepared faults fs path).1.exists? (temporaryPath path) = false :=
  ⟨fun ready => ⟨ready.made, ready.plain, ready.free⟩,
    fun ⟨made, plain, free⟩ => ⟨made, plain, free, fun _ => prepared_steady descends⟩⟩

section
variable (clean : CleansUp faults path) (done : prepared faults fs path = (made, .ok ()))
include clean done

theorem unopened_atomic_iff {error : SystemError} (plain : '\x00' ∉ path.toList) :
    Atomic fs path bytes ((made.cleanUp faults path error).map id .error) ↔ Ready faults fs path := by
  have extended := extended_of_prepared done
  rw [ready_iff done]
  -- What the clean-up finds under the temporary name was there before the run.
  cases there : made.exists? (temporaryPath path) with
  | false =>
    rw [cleanUp_nothing clean error there]
    refine (atomic_failed_iff extended rfl fun _ => rfl).trans ?_
    exact ⟨fun steady => ⟨plain, rfl, steady⟩, fun ready => ready.2.2⟩
  | true =>
    refine iff_of_false ?_ fun ready => nomatch ready.2.1
    obtain ⟨entry, found⟩ := exists?_iff.1 there
    cases entry with
    | directory =>
      obtain ⟨other, same⟩ := cleanUp_directory clean error found
      rw [same]
      exact not_atomic_system
    | file held =>
      obtain ⟨target, located, _, stored, _⟩ := status_ok_iff.1 found
      have leads : made.Leads (temporaryPath path) target.location := ⟨target, located, rfl⟩
      have inside : target.location ≠ [] := fun root => by rw [root] at stored; cases stored
      have erased := changed_erase made inside
      have leads' := leads.keeps (erased.keepsDirectories (by simp [stored]))
      rw [cleanUp_file clean error leads found]
      exact not_atomic_of_lost extended stored leads' erased.at_place

theorem unfinished_atomic_iff {after : FileSystem} {held : List UInt8} {error : SystemError}
    (opens : Opens made (temporaryPath path) place)
    (changed : Changed made place (some (.file held)) after) :
    Atomic fs path bytes ((after.cleanUp faults path error).map id .error) ↔ Ready faults fs path := by
  have extended := extended_of_prepared done
  have leads := opens.leads_to.keeps (opens.keepsDirectories changed)
  rw [ready_iff done, cleanUp_file clean error leads (opens.status changed)]
  have erased := changed.again (changed_erase after opens.inside)
  rcases opens.there with ⟨there, held', found⟩ | ⟨there, nothing⟩
  · refine iff_of_false ?_ fun ready => nomatch there.symm.trans ready.2.1
    have leads := opens.leads_to.keeps (opens.keepsDirectories erased)
    exact not_atomic_of_lost extended found leads erased.at_place
  · have same : ∀ location, (after.erase place).find? location = made.find? location := by
      intro location
      rw [erased.find?]
      split
      next here => rw [here, nothing]
      next => rfl
    refine (atomic_failed_iff extended erased.current same).trans ?_
    have plain := mt temporary_null_iff.2 opens.leads_to.admits.plain
    exact ⟨fun steady => ⟨plain, there, steady⟩, fun ready => ready.2.2⟩

omit clean

theorem finished_atomic_iff {written moved : FileSystem} {goal : Target}
    (opens : Opens made (temporaryPath path) place)
    (changed : Changed made place (some (.file bytes)) written)
    (lands : Lands written path place bytes goal moved) :
    Atomic fs path bytes (moved, .ok ()) ↔ Ready faults fs path := by
  have extended := extended_of_prepared done
  have keeps := (opens.keepsDirectories changed).trans (lands.keepsDirectories changed.at_place)
  have leads := opens.leads_to.keeps keeps
  have landed := lands.leads_to changed.at_place
  have apart : goal.location ≠ place := temporary_ne leads landed
  rw [ready_iff done]
  rcases opens.there with ⟨there, held, found⟩ | ⟨there, nothing⟩
  · refine iff_of_false ?_ fun ready => nomatch there.symm.trans ready.2.1
    refine not_atomic_of_lost extended found leads ?_
    rw [lands.find?, if_neg apart.symm, if_pos rfl]
  · have plain := mt temporary_null_iff.2 opens.leads_to.admits.plain
    refine iff_of_true ⟨.inl ⟨rfl, lands.read changed.at_place⟩, fun location beside => ?_⟩
      ⟨plain, there, fun location led => ?_⟩
    · have beside : location ≠ goal.location := fun same => beside (same ▸ landed)
      refine (file?_congr ?_).trans (extended.kept location).file?_eq
      rw [lands.find?, if_neg beside, changed.find?]
      split
      next here => rw [here, nothing]
      next => rfl
    · -- The path leads to the file that was written, and a directory is not replaced by one.
      cases (led.keeps keeps).unique landed
      refine (extended.kept goal.location).resolve_right ?_
      rintro ⟨_, directory⟩
      exact lands.free ((changed.elsewhere apart).trans directory)

end

/-- Where a temporary file is always taken away, a write keeps its promise just if the way is clear. -/
theorem Ending.atomic_iff {outcome : FileSystem × Except WriteError Unit}
    (ending : Ending faults fs path bytes outcome) (clean : CleansUp faults path) :
    Atomic fs path bytes outcome ↔ Ready faults fs path := by
  cases ending with
  | astray failed =>
    exact iff_of_false not_atomic_system fun ready =>
      nomatch (congrArg Prod.snd failed).symm.trans ready.made
  | outside _ null => exact iff_of_false not_atomic_system fun ready => ready.plain null
  | unopened done plain => exact unopened_atomic_iff clean done plain
  | unfinished done opens changed => exact unfinished_atomic_iff clean done opens changed
  | finished done opens changed lands => exact finished_atomic_iff done opens changed lands

/-- However calls fail, a write that returns leaves the file with its bytes, and one that does not
leaves all as it was but for its temporary path and directories on the way. Where the temporary file
can always be taken away, it keeps the whole promise just if its way is clear. -/
theorem attemptWrite_atomic_iff (faults : Faults) (fs : FileSystem) (path text : String) :
    Confined fs path (Utf8.encode text) (fs.attemptWrite faults path text) ∧
    (CleansUp faults path →
      (Atomic fs path (Utf8.encode text) (fs.attemptWrite faults path text) ↔
        Ready faults fs path)) := by
  have ending := attemptWrite_ending faults fs path text
  exact ⟨ending.confined, ending.atomic_iff⟩

end

/-- The device fails when the temporary file is to be stored for good. -/
def unsynced : Faults where
  error? call := match call with
    | .sync => some ⟨.busy, "out/s.avsc.tmp", none⟩
    | _ => none
  left := 0
  reported call error failed := by
    cases call <;> cases failed
    exact nofun

theorem unsynced_attemptWrite_atomic : CleansUp unsynced "out/s.avsc" ∧
    Ready unsynced (empty ["home"]) "out/s.avsc" ∧
    Atomic (empty ["home"]) "out/s.avsc" (Utf8.encode "null")
      ((empty ["home"]).attemptWrite unsynced "out/s.avsc" "null") := by
  have clean : CleansUp unsynced "out/s.avsc" := ⟨rfl, rfl⟩
  have descends : Path.Descends "out/s.avsc" := ⟨by decide +kernel, by decide +kernel⟩
  have ready : Ready unsynced (empty ["home"]) "out/s.avsc" :=
    (ready_iff_of_descends descends).2 ⟨rfl, by decide +kernel, by decide +kernel⟩
  have atomic_iff := (attemptWrite_atomic_iff unsynced (empty ["home"]) "out/s.avsc" "null").2 clean
  exact ⟨clean, ready, atomic_iff.2 ready⟩

def blocked : FileSystem := (empty ["home"]).put ["home", "s.avsc.tmp"] .directory

theorem blocked_not_atomic : ¬ Atomic blocked "s.avsc" (Utf8.encode "null")
    (blocked.writeAtomically "s.avsc" "null") := by
  have escaped : blocked.writeAtomically "s.avsc" "null" =
      (blocked, .error (.system ⟨.isDirectory, "s.avsc.tmp", none⟩)) := rfl
  rw [escaped]
  exact not_atomic_system

end PartialUpdate.FileSystem
