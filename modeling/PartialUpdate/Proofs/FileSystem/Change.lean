import PartialUpdate.FileSystem.Basic

/-!
What a file system holds after a change. A single call changes one place, and making directories
only adds them where nothing was.
-/

set_option autoImplicit false

namespace PartialUpdate.FileSystem

theorem find?_root (fs : FileSystem) : fs.find? [] = some .directory := rfl

/-- Where nothing is, is not the root. -/
theorem inside_of_none {fs : FileSystem} {place : Location} (nothing : fs.find? place = none) :
    place ≠ [] := by
  rintro rfl
  exact nomatch nothing.symm.trans fs.find?_root

structure Changed (before : FileSystem) (place : Location) (entry : Option Entry)
    (after : FileSystem) : Prop where
  current : after.current = before.current
  find? : ∀ location, after.find? location = if location = place then entry else before.find? location

/-- All that was there is still there, and so are all directories. -/
structure KeepsDirectories (before after : FileSystem) : Prop where
  current : after.current = before.current
  find? : ∀ location, before.find? location = some .directory → after.find? location = some .directory

/-- At a place all is as it was, or a directory was made where nothing was. -/
def Kept (before after : FileSystem) (location : Location) : Prop :=
  after.find? location = before.find? location ∨
    before.find? location = none ∧ after.find? location = some .directory

structure Extended (before after : FileSystem) : Prop where
  current : after.current = before.current
  kept : ∀ location, Kept before after location

section
variable {before middle after : FileSystem} {place : Location}

theorem changed_put (fs : FileSystem) (entry : Entry) (inside : place ≠ []) :
    Changed fs place (some entry) (fs.put place entry) where
  current := rfl
  find? location := by
    by_cases root : location = []
    · rw [root, if_neg inside.symm, find?_root, find?_root]
    · exact fs.find?_put place location entry root

theorem changed_erase (fs : FileSystem) (inside : place ≠ []) :
    Changed fs place none (fs.erase place) where
  current := rfl
  find? location := by
    by_cases root : location = []
    · rw [root, if_neg inside.symm, find?_root, find?_root]
    · exact fs.find?_erase place location root

namespace Changed
variable {entry other : Option Entry}

theorem at_place (changed : Changed before place entry after) : after.find? place = entry := by
  rw [changed.find?, if_pos rfl]

theorem elsewhere (changed : Changed before place entry after) {location : Location}
    (apart : location ≠ place) : after.find? location = before.find? location := by
  rw [changed.find?, if_neg apart]

/-- A place that is changed twice holds what came last. -/
theorem again (first : Changed before place entry middle) (second : Changed middle place other after) :
    Changed before place other after where
  current := second.current.trans first.current
  find? location := by
    rw [second.find?, first.find?]
    split <;> rfl

theorem keepsDirectories (changed : Changed before place entry after)
    (free : before.find? place ≠ some .directory) : KeepsDirectories before after where
  current := changed.current
  find? location found := by
    rw [changed.elsewhere (fun same => free (same ▸ found)), found]

end Changed

theorem KeepsDirectories.of_same (current : after.current = before.current)
    (same : ∀ location, after.find? location = before.find? location) : KeepsDirectories before after :=
  ⟨current, fun location found => (same location).trans found⟩

theorem KeepsDirectories.trans (first : KeepsDirectories before middle)
    (second : KeepsDirectories middle after) : KeepsDirectories before after :=
  ⟨second.current.trans first.current,
    fun location found => second.find? location (first.find? location found)⟩

theorem Kept.trans {location : Location} (first : Kept before middle location)
    (second : Kept middle after location) : Kept before after location := by
  rcases first with same | ⟨nothing, directory⟩
  · rw [Kept, ← same]
    exact second
  · rcases second with same | ⟨absent, _⟩
    · exact .inr ⟨nothing, same.trans directory⟩
    · exact nomatch absent.symm.trans directory

theorem Extended.refl (fs : FileSystem) : Extended fs fs := ⟨rfl, fun _ => .inl rfl⟩

theorem Extended.trans (first : Extended before middle) (second : Extended middle after) :
    Extended before after :=
  ⟨second.current.trans first.current, fun location => (first.kept location).trans (second.kept location)⟩

theorem Extended.put (nothing : before.find? place = none) :
    Extended before (before.put place .directory) := by
  have changed := changed_put before .directory (inside_of_none nothing)
  refine ⟨rfl, fun location => ?_⟩
  by_cases here : location = place
  · rw [here]
    exact .inr ⟨nothing, changed.at_place⟩
  · exact .inl (changed.elsewhere here)

def file? (fs : FileSystem) (location : Location) : Option (List UInt8) :=
  match fs.find? location with
  | some (.file bytes) => some bytes
  | _ => none

theorem file?_congr {location : Location} (same : after.find? location = before.find? location) :
    after.file? location = before.file? location := by
  rw [file?, same, file?]

/-- A directory that was made is no file. -/
theorem Kept.file?_eq {location : Location} (kept : Kept before after location) :
    after.file? location = before.file? location := by
  rcases kept with same | ⟨nothing, directory⟩
  · exact file?_congr same
  · rw [FileSystem.file?, FileSystem.file?, nothing, directory]

end
end PartialUpdate.FileSystem
