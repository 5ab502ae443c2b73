import PartialUpdate.Proofs.FileSystem.Lookup
import PartialUpdate.Proofs.FileSystem.Path

/-!
Making directories. A path is made from its front on, so whatever each step keeps, all steps keep:
nothing but directories is added, and none below the path itself.
-/

set_option autoImplicit false

namespace PartialUpdate

namespace Path

theorem isPrefix_split (cs : List Char) : (split cs).1 <+: cs := by
  rw [split]
  have front := List.take_prefix (cs.length - (cs.reverse.takeWhile (· != '/')).reverse.length) cs
  split
  next => exact front
  next =>
    refine List.IsPrefix.trans ?_ front
    rw [← List.reverse_suffix, List.reverse_reverse]
    exact List.dropWhile_suffix _

theorem bne_slash {cs : List Char} (single : '/' ∉ cs) : ∀ c ∈ cs.reverse, (c != '/') = true := by
  intro c within
  have apart : c ≠ '/' := fun slash => single (slash ▸ List.mem_reverse.1 within)
  simpa using apart

/-- The path of the directory ends before the last slash. -/
theorem split_slash (before : List Char) {last : List Char} (single : '/' ∉ last) :
    (split (before ++ '/' :: last)).1 <+: before ++ ['/'] := by
  have ends : ((before ++ '/' :: last).reverse.takeWhile (· != '/')).reverse = last := by
    rw [List.reverse_append, List.reverse_cons, List.append_assoc,
      List.takeWhile_append_of_pos (bne_slash single)]
    simp
  have front : (before ++ '/' :: last).take ((before ++ '/' :: last).length - last.length) =
      before ++ ['/'] := by
    rw [show before ++ '/' :: last = (before ++ ['/']) ++ last by simp]
    exact List.take_left' (by simp; omega)
  rw [split, ends, front]
  split
  next => exact List.prefix_rfl
  next =>
    rw [← List.reverse_suffix, List.reverse_reverse]
    exact List.dropWhile_suffix _

/-- A path without a slash lies in no directory of its own. -/
theorem split_single {cs : List Char} (single : '/' ∉ cs) : (split cs).1 = [] := by
  have ends : (cs.reverse.takeWhile (· != '/')).reverse = cs := by
    rw [← List.append_nil cs.reverse, List.takeWhile_append_of_pos (bne_slash single)]
    simp
  rw [split, ends]
  simp

theorem isPrefix_parentAndName (cs : List Char) : (FileSystem.parentAndName cs).1 <+: cs := by
  rw [FileSystem.parentAndName]
  split
  next head found =>
    have front := isPrefix_split cs
    rw [found] at front
    exact (isPrefix_split head).trans front
  next => exact isPrefix_split cs

/-- A path that goes down at every step and ends with a name. -/
structure Descends (path : String) : Prop where
  named : ∀ step ∈ steps path, step ≠ "." ∧ step ≠ ".."
  bare : endsWithSlash path = false

theorem length_steps_directory {path : String} (given : path ≠ "") (bare : endsWithSlash path = false) :
    (steps (directory path)).length < (steps path).length := by
  by_cases slash : '/' ∈ path.toList
  · obtain ⟨last, before, same, single⟩ := List.eq_append_cons_of_mem (List.mem_reverse.2 slash)
    have same : path.toList = before.reverse ++ '/' :: last.reverse := by
      rw [← List.reverse_reverse path.toList, same]
      simp
    have ends : last ≠ [] := by
      rintro rfl
      simp [endsWithSlash, same] at bare
    have single : '/' ∉ last.reverse := by simpa using single
    have short := split_slash before.reverse single
    rw [← same] at short
    have fewer : (steps (directory path)).length ≤
        (steps (String.ofList (before.reverse ++ ['/']))).length :=
      length_steps_le (by simpa using short)
    refine Nat.lt_of_le_of_lt fewer ?_
    rw [steps, steps, same, String.toList_ofList, parts_append_slash, parts_append_slash,
      parts_single single]
    simp [ends, parts]
  · rw [directory, split_single slash, steps, steps, parts_single slash]
    simp [parts, given]

end Path

namespace FileSystem

section
variable {fs : FileSystem} {path : String} {place : Location}

theorem walk_descends {location reached : Location} {steps : List String}
    (named : ∀ step ∈ steps, step ≠ "." ∧ step ≠ "..") :
    fs.walk location steps = .ok reached → reached = location ++ steps := by
  intro passed
  fun_induction walk fs location steps with
  | case1 location =>
    cases passed
    simp
  | case2 => exact absurd rfl (named _ (.head _)).1
  | case3 => exact absurd rfl (named _ (.head _)).2
  | case4 | case5 | case6 => cases passed
  | case7 location name rest _ _ _ _ ih =>
    rw [ih (fun step within => named step (.tail _ within)) passed, List.append_assoc]
    rfl

theorem Leads.eq_of_descends (descends : Path.Descends path) (leads : fs.Leads path place) :
    place = fs.origin path ++ Path.steps path := by
  obtain ⟨target, found, rfl⟩ := leads
  cases locate_ok_iff.1 found with
  | origin _ none => rw [none, List.append_nil]
  | @last before step _ _ shown reached =>
    have named := descends.named
    rw [shown] at named ⊢
    obtain ⟨given, given'⟩ := named step (by simp)
    rw [lastTarget, if_neg given, if_neg given',
      walk_descends (fun step within => named step (by simp [within])) reached]
    simp

theorem origin_of_front {front : List Char} (short : front <+: path.toList) (given : front ≠ []) :
    fs.origin (String.ofList front) = fs.origin path := by
  obtain ⟨rest, same⟩ := short
  obtain ⟨c, others, shown⟩ := List.exists_cons_of_ne_nil given
  simp [origin, Path.isAbsolute, ← same, shown]

end

section
variable {faults : Faults} {fs : FileSystem} {path : String} {tolerant : Bool}
  {relation : FileSystem → FileSystem → Prop}

theorem makeLeaf_induction (refl : ∀ fs, relation fs fs)
    (step : ∀ made, fs.makeDirectory path = .ok made → relation fs made) :
    relation fs (fs.makeLeaf faults tolerant path).1 := by
  rw [makeLeaf]
  split
  next made done => exact step made (Faults.strike_ok_iff.1 done).2
  next =>
    dsimp only
    split <;> exact refl fs

theorem makeSteps_induction {count : Nat} {steps : List Char} (refl : ∀ fs, relation fs fs)
    (trans : ∀ {first second third}, relation first second → relation second third →
      relation first third)
    (step : ∀ fs made front, front <+: steps → fs.makeDirectory (String.ofList front) = .ok made →
      relation fs made) : relation fs (makeSteps faults tolerant count fs steps).1 := by
  induction count generalizing steps with
  | zero => exact makeLeaf_induction refl fun made => step fs made steps List.prefix_rfl
  | succ count ih =>
    have leaf : ∀ fs, relation fs (makeLeaf faults fs tolerant (String.ofList steps)).1 :=
      fun fs => makeLeaf_induction refl fun made => step fs made steps List.prefix_rfl
    have front := Path.isPrefix_parentAndName steps
    rw [makeSteps]
    dsimp only
    split
    next => exact leaf fs
    next =>
      have earlier := ih fun fs made inner short => step fs made inner (short.trans front)
      split
      next => exact earlier
      next =>
        split
        next => exact earlier
        next => exact trans earlier (leaf _)

/-- Making directories does what making each of them does, one after another. -/
theorem attemptDirectories_induction (refl : ∀ fs, relation fs fs)
    (trans : ∀ {first second third}, relation first second → relation second third →
      relation first third)
    (step : ∀ fs made front, front <+: path.toList → fs.makeDirectory (String.ofList front) = .ok made →
      relation fs made) : relation fs (fs.attemptDirectories faults path tolerant).1 := by
  rw [attemptDirectories]
  split
  next => exact refl fs
  next => exact makeSteps_induction refl trans step

/-- However far it gets, making directories only adds directories. -/
theorem attemptDirectories_extended : Extended fs (fs.attemptDirectories faults path tolerant).1 :=
  attemptDirectories_induction .refl .trans fun _ _ _ _ done =>
    let ⟨_, _, nothing, same⟩ := makeDirectory_ok done
    same ▸ .put nothing

/-- What differs lies no deeper than a path has steps. -/
structure Shallow (path : String) (before after : FileSystem) : Prop where
  current : after.current = before.current
  near : ∀ location, after.find? location ≠ before.find? location →
    location.length ≤ (before.origin path).length + (Path.steps path).length

theorem Shallow.trans {first second third : FileSystem} (earlier : Shallow path first second)
    (later : Shallow path second third) : Shallow path first third := by
  refine ⟨later.current.trans earlier.current, fun location changed => ?_⟩
  by_cases same : second.find? location = first.find? location
  · have near := later.near location (same ▸ changed)
    rwa [origin, earlier.current] at near
  · exact earlier.near location same

theorem Shallow.makeDirectory {front : List Char} {made : FileSystem} (short : front <+: path.toList)
    (done : fs.makeDirectory (String.ofList front) = .ok made) : Shallow path fs made := by
  obtain ⟨place, leads, nothing, rfl⟩ := makeDirectory_ok done
  refine ⟨rfl, fun location changed => ?_⟩
  have here : location = place := Decidable.byContradiction fun apart =>
    changed ((changed_put fs .directory (inside_of_none nothing)).elsewhere apart)
  have far := leads.length_le
  rw [origin_of_front short (by simpa using leads.admits.given)] at far
  have fewer := Path.length_steps_le short
  rw [here]
  omega

theorem attemptDirectories_shallow : Shallow path fs (fs.attemptDirectories faults path tolerant).1 :=
  attemptDirectories_induction (fun _ => ⟨rfl, fun _ => absurd rfl⟩) .trans
    fun _ _ _ => .makeDirectory

end

end FileSystem
end PartialUpdate
