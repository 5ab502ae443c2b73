import PartialUpdate.Proofs.FileSystem.Change
import PartialUpdate.Proofs.Outcome

/-!
Where paths lead, and what the calls on them do. Only directories are passed on the way, so a path
that leads somewhere goes on to do so for as long as the directories stay.
-/

set_option autoImplicit false

namespace PartialUpdate.FileSystem

structure Admits (path : String) : Prop where
  plain : '\x00' ∉ path.toList
  given : path ≠ ""
  short : path.utf8ByteSize < Path.pathBound

def origin (fs : FileSystem) (path : String) : Location :=
  if Path.isAbsolute path then [] else fs.current

def lastTarget (place : Location) (step : String) (slash : Bool) : Target :=
  if step = "." then ⟨place, none, slash⟩
  else if step = ".." then ⟨place.dropLast, none, slash⟩
  else ⟨place ++ [step], some step, slash⟩

inductive Locates (fs : FileSystem) (path : String) : Target → Prop where
  | origin : Admits path → Path.steps path = [] → Locates fs path ⟨fs.origin path, none, true⟩
  | last {before : List String} {step : String} {place : Location} : Admits path →
      Path.steps path = before ++ [step] → fs.walk (fs.origin path) before = .ok place →
      Locates fs path (lastTarget place step (Path.endsWithSlash path))

section
variable {fs : FileSystem} {path : String}

theorem walk_keeps {before after : FileSystem} (keeps : KeepsDirectories before after)
    {steps : List String} {location reached : Location} :
    before.walk location steps = .ok reached → after.walk location steps = .ok reached := by
  fun_induction walk before location steps with
  | case1 location => exact id
  | case2 location rest ih => rw [walk]; exact ih
  | case3 location rest ih => rw [walk]; exact ih
  | case4 => exact nofun
  | case5 => exact nofun
  | case6 => exact nofun
  | case7 location name rest _ _ short found ih =>
    rw [walk]
    · rw [if_neg short, keeps.find? _ found]
      exact ih
    all_goals assumption

theorem walk_ne_null {location : Location} {steps : List String} :
    fs.walk location steps ≠ .error .nullCharacter := by
  fun_induction walk fs location steps with
  | case2 _ _ ih | case3 _ _ ih => exact ih
  | case7 _ _ _ _ _ _ _ ih => exact ih
  | _ => exact nofun

theorem walk_append {location : Location} {first second : List String} :
    fs.walk location (first ++ second) =
      fs.walk location first >>= fun middle => fs.walk middle second := by
  fun_induction walk fs location first with
  | case1 location => rfl
  | case2 location rest ih => rw [List.cons_append, walk, ih]
  | case3 location rest ih => rw [List.cons_append, walk, ih]
  | case4 location name rest _ _ long =>
    rw [List.cons_append, walk, if_pos long]
    · rfl
    all_goals assumption
  | case5 location name rest _ _ short found =>
    rw [List.cons_append, walk, if_neg short, found]
    · rfl
    all_goals assumption
  | case6 location name rest _ _ short _ found =>
    rw [List.cons_append, walk, if_neg short, found]
    · rfl
    all_goals assumption
  | case7 location name rest _ _ short found ih =>
    rw [List.cons_append, walk, if_neg short, found]
    · exact ih
    all_goals assumption

theorem walk_last {location reached : Location} {step : String} (slash : Bool)
    (passed : fs.walk location [step] = .ok reached) :
    reached = (lastTarget location step slash).location := by
  rw [lastTarget]
  split
  next same =>
    subst same
    cases passed
    rfl
  next given =>
    split
    next same =>
      subst same
      cases passed
      rfl
    next named =>
      rw [walk] at passed
      · split at passed
        next => cases passed
        next =>
          split at passed
          next => cases passed
          next => cases passed
          next => cases passed; rfl
      · exact given
      · exact named

theorem walk_length_le {location reached : Location} {steps : List String}
    (passed : fs.walk location steps = .ok reached) :
    reached.length ≤ location.length + steps.length := by
  fun_induction walk fs location steps with
  | case1 location =>
    cases passed
    simp
  | case2 location rest ih =>
    have far := ih passed
    rw [List.length_cons]
    omega
  | case3 location rest ih =>
    have far := ih passed
    rw [List.length_dropLast] at far
    rw [List.length_cons]
    omega
  | case4 | case5 | case6 => cases passed
  | case7 location name rest _ _ _ _ ih =>
    have far := ih passed
    rw [List.length_append, List.length_singleton] at far
    rw [List.length_cons]
    omega

theorem lastTarget_length_le {location : Location} {step : String} {slash : Bool} :
    (lastTarget location step slash).location.length ≤ location.length + 1 := by
  rw [lastTarget]
  split
  next => exact Nat.le_succ _
  next =>
    split
    next => simp; omega
    next => simp

theorem locate_eq : fs.locate path =
    if '\x00' ∈ path.toList then .error .nullCharacter
    else if path = "" then .error .missing
    else if Path.pathBound ≤ path.utf8ByteSize then .error .nameTooLong
    else match (Path.steps path).reverse with
      | [] => .ok ⟨fs.origin path, none, true⟩
      | step :: before => (fs.walk (fs.origin path) before.reverse).map fun place =>
          lastTarget place step (Path.endsWithSlash path) := by
  rw [locate]
  by_cases null : '\x00' ∈ path.toList
  · simp [null, throw, throwThe, MonadExceptOf.throw, bind, Except.bind]
  · by_cases empty : path = ""
    · simp [empty, throw, throwThe, MonadExceptOf.throw, bind, Except.bind]
    · by_cases long : Path.pathBound ≤ path.utf8ByteSize
      · simp [null, empty, long, throw, throwThe, MonadExceptOf.throw, bind, Except.bind]
      · simp only [List.contains_eq_mem, null, decide_false, Bool.false_eq_true, if_false,
          String.isEmpty_iff, empty, long]
        cases (Path.steps path).reverse with
        | nil => rfl
        | cons step before =>
          change (fs.walk (fs.origin path) before.reverse >>= _) = Except.map _ _
          cases fs.walk (fs.origin path) before.reverse with
          | error problem => rfl
          | ok place =>
            rw [bind_of_ok rfl, Except.map, lastTarget]
            split
            next => rfl
            next => split <;> rfl

theorem locate_ok_iff {target : Target} : fs.locate path = .ok target ↔ Locates fs path target := by
  rw [locate_eq]
  constructor
  · intro found
    split at found
    next => cases found
    next plain =>
      split at found
      next => cases found
      next given =>
        split at found
        next => cases found
        next short =>
          have admits : Admits path := ⟨plain, given, Nat.not_le.1 short⟩
          split at found
          next none =>
            cases found
            exact .origin admits (List.reverse_eq_nil_iff.1 none)
          next step before shown =>
            obtain ⟨place, reached, rfl⟩ := map_ok_iff.1 found
            exact .last admits (List.reverse_eq_cons_iff.1 shown) reached
  · intro locates
    cases locates with
    | origin admits none =>
      rw [if_neg admits.plain, if_neg admits.given, if_neg (Nat.not_le.2 admits.short), none]
      rfl
    | last admits shown reached =>
      rw [if_neg admits.plain, if_neg admits.given, if_neg (Nat.not_le.2 admits.short), shown,
        List.reverse_append]
      simp [reached, Except.map]

/-- A null character is reported just where the path has one. -/
theorem locate_null_iff : fs.locate path = .error .nullCharacter ↔ '\x00' ∈ path.toList := by
  rw [locate_eq]
  split
  next null => exact iff_of_true rfl null
  next plain =>
    refine iff_of_false (fun failed => ?_) plain
    split at failed
    next => cases failed
    next =>
      split at failed
      next => cases failed
      next =>
        split at failed
        next => cases failed
        next step before _ =>
          cases reached : fs.walk (fs.origin path) before.reverse with
          | ok place => rw [reached] at failed; cases failed
          | error problem =>
            rw [reached] at failed
            cases failed
            exact walk_ne_null reached

theorem origin_keeps {after : FileSystem} (keeps : KeepsDirectories fs after) :
    after.origin path = fs.origin path := by
  rw [origin, origin, keeps.current]

theorem locate_keeps {after : FileSystem} {target : Target} (keeps : KeepsDirectories fs after)
    (found : fs.locate path = .ok target) : after.locate path = .ok target := by
  rw [locate_ok_iff] at found ⊢
  cases found with
  | origin admits none =>
    rw [← origin_keeps keeps]
    exact .origin admits none
  | last admits shown reached =>
    refine .last admits shown ?_
    rw [origin_keeps keeps]
    exact walk_keeps keeps reached

/-- A path leads to a place, whether anything is there or not. -/
def Leads (fs : FileSystem) (path : String) (location : Location) : Prop :=
  ∃ target, fs.locate path = .ok target ∧ target.location = location

theorem Leads.keeps {before after : FileSystem} {location : Location}
    (leads : before.Leads path location) (keeps : KeepsDirectories before after) :
    after.Leads path location :=
  let ⟨target, found, same⟩ := leads
  ⟨target, locate_keeps keeps found, same⟩

/-- Where a path leads is one place. -/
theorem Leads.unique {first second : Location} (leads : fs.Leads path first)
    (leads' : fs.Leads path second) : first = second := by
  obtain ⟨target, found, rfl⟩ := leads
  obtain ⟨target', found', rfl⟩ := leads'
  cases found.symm.trans found'
  rfl

theorem Leads.admits {place : Location} (leads : fs.Leads path place) : Admits path := by
  obtain ⟨target, found, _⟩ := leads
  cases locate_ok_iff.1 found with
  | origin admits | last admits => exact admits

/-- No path leads deeper than it has steps. -/
theorem Leads.length_le {place : Location} (leads : fs.Leads path place) :
    place.length ≤ (fs.origin path).length + (Path.steps path).length := by
  obtain ⟨target, found, rfl⟩ := leads
  cases locate_ok_iff.1 found with
  | origin => exact Nat.le_add_right _ _
  | last _ shown reached =>
    have far := walk_length_le reached
    rw [shown, List.length_append, List.length_singleton]
    exact Nat.le_trans lastTarget_length_le (by omega)

theorem status_ok_iff {entry : Entry} : fs.status path = .ok entry ↔
    ∃ target, fs.locate path = .ok target ∧ checkName target = .ok () ∧
      fs.find? target.location = some entry ∧ (target.slash = true → entry = .directory) := by
  rw [status, bind_ok_iff]
  refine exists_congr fun target => and_congr_right fun _ => ?_
  rw [bind_ok_iff]
  constructor
  · rintro ⟨⟨⟩, fits, found⟩
    refine ⟨fits, ?_⟩
    split at found
    next => cases found
    next bytes file =>
      split at found
      next => cases found
      next bare =>
        cases found
        exact ⟨file, fun slash => absurd slash bare⟩
    next directory =>
      cases found
      exact ⟨directory, fun _ => rfl⟩
  · rintro ⟨fits, found, bare⟩
    refine ⟨(), fits, ?_⟩
    rw [found]
    cases entry with
    | directory => rfl
    | file bytes =>
      -- Only a directory may be named with a slash at the end.
      have plain : target.slash = false := by
        cases slash : target.slash with
        | false => rfl
        | true => cases bare slash
      simp [plain, pure, Except.pure]

theorem status_at {place : Location} {entry : Entry} (leads : fs.Leads path place)
    (found : fs.status path = .ok entry) : fs.find? place = some entry := by
  obtain ⟨target, located, _, there, _⟩ := status_ok_iff.1 found
  rw [leads.unique ⟨target, located, rfl⟩, there]

theorem exists?_iff : fs.exists? path = true ↔ ∃ entry, fs.status path = .ok entry := by
  rw [exists?]
  cases fs.status path <;> simp

structure Opens (fs : FileSystem) (path : String) (place : Location) : Prop where
  leads : ∃ target, fs.locate path = .ok target ∧ checkName target = .ok () ∧
    target.slash = false ∧ target.location = place
  free : fs.find? place ≠ some .directory

theorem report_ok_iff {α : Type} {result : Except PathProblem α} {value : α} :
    report path result = .ok value ↔ result = .ok value := by
  cases result <;> simp [report]

theorem report_null_iff {α : Type} {result : Except PathProblem α} :
    (∃ error, report path result = .error error ∧ error.problem = .nullCharacter) ↔
      result = .error .nullCharacter := by
  cases result <;> simp [report]

theorem checkName_ne_null {target : Target} : checkName target ≠ .error .nullCharacter := by
  rw [checkName]
  split
  next => split <;> exact nofun
  next => exact nofun

theorem refuseIf_ok_iff {cause : Bool} {problem : PathProblem} {value : Unit} :
    refuseIf cause problem = .ok value ↔ cause = false := by
  cases cause <;> simp [refuseIf]

theorem refuseIf_error_iff {cause : Bool} {problem other : PathProblem} :
    refuseIf cause problem = .error other ↔ cause = true ∧ problem = other := by
  cases cause <;> simp [refuseIf]

theorem openFile_ok_iff {opened : FileSystem} {place : Location} :
    fs.openFile path = .ok (opened, place) ↔
      Opens fs path place ∧ opened = fs.put place (.file []) := by
  rw [openFile, report_ok_iff]
  simp only [bind_ok_iff, refuseIf_ok_iff, pure_ok_iff, Prod.mk.injEq]
  constructor
  · rintro ⟨target, found, _, bare, _, fits, _, free, rfl, rfl⟩
    exact ⟨⟨⟨target, found, fits, bare, rfl⟩, by simpa using free⟩, rfl⟩
  · rintro ⟨⟨⟨target, found, fits, bare, rfl⟩, free⟩, rfl⟩
    exact ⟨target, found, (), bare, (), fits, (), by simpa using free, rfl, rfl⟩

theorem openFile_null_iff :
    (∃ error, fs.openFile path = .error error ∧ error.problem = .nullCharacter) ↔
      '\x00' ∈ path.toList := by
  have null : fs.locate path = .error .nullCharacter ↔ _ := locate_null_iff
  rw [openFile, report_null_iff, ← null]
  simp only [bind_error_iff, refuseIf_error_iff, checkName_ne_null, pure, Except.pure, reduceCtorEq,
    and_false, or_false, exists_false]

/-- A directory is made where nothing was. -/
theorem makeDirectory_ok {made : FileSystem} (done : fs.makeDirectory path = .ok made) :
    ∃ place, fs.Leads path place ∧ fs.find? place = none ∧ made = fs.put place .directory := by
  rw [makeDirectory, report_ok_iff] at done
  simp only [bind_ok_iff, refuseIf_ok_iff, pure_ok_iff] at done
  obtain ⟨target, found, _, _, _, _, _, free, rfl⟩ := done
  exact ⟨target.location, ⟨target, found, rfl⟩, by simpa using free, rfl⟩

end

section
variable {fs after : FileSystem} {path : String} {place : Location} {bytes : List UInt8}

theorem Opens.inside (opens : Opens fs path place) : place ≠ [] :=
  fun root => opens.free (root ▸ fs.find?_root)

theorem Opens.leads_to (opens : Opens fs path place) : fs.Leads path place := by
  obtain ⟨target, found, _, _, same⟩ := opens.leads
  exact ⟨target, found, same⟩

theorem Opens.keepsDirectories {after : FileSystem} {entry : Option Entry}
    (opens : Opens fs path place) (changed : Changed fs place entry after) :
    KeepsDirectories fs after :=
  changed.keepsDirectories opens.free

/-- Where a file can be opened, either a file is already or nothing. -/
theorem Opens.there (opens : Opens fs path place) :
    (fs.exists? path = true ∧ ∃ held, fs.find? place = some (.file held)) ∨
      fs.exists? path = false ∧ fs.find? place = none := by
  cases found : fs.find? place with
  | none =>
    refine .inr ⟨?_, rfl⟩
    rw [Bool.eq_false_iff, ne_eq, exists?_iff]
    rintro ⟨entry, status⟩
    exact nomatch found.symm.trans (status_at opens.leads_to status)
  | some entry =>
    cases entry with
    | directory => exact absurd found opens.free
    | file held =>
      obtain ⟨target, located, fits, bare, rfl⟩ := opens.leads
      refine .inl ⟨exists?_iff.2 ⟨.file held, ?_⟩, held, rfl⟩
      exact status_ok_iff.2 ⟨target, located, fits, found, by simp [bare]⟩

/-- Once it was opened, a file is there. -/
theorem Opens.status (opens : Opens fs path place)
    (changed : Changed fs place (some (.file bytes)) after) :
    after.status path = .ok (.file bytes) := by
  obtain ⟨target, found, fits, bare, rfl⟩ := opens.leads
  refine status_ok_iff.2 ⟨target, ?_, fits, changed.at_place, by simp [bare]⟩
  exact locate_keeps (changed.keepsDirectories opens.free) found

theorem remove_ok_iff {removed : FileSystem} : fs.remove path = .ok removed ↔
    ∃ place bytes, fs.Leads path place ∧ fs.status path = .ok (.file bytes) ∧
      removed = fs.erase place := by
  rw [remove, report_ok_iff, bind_ok_iff]
  constructor
  · rintro ⟨entry, found, done⟩
    cases entry with
    | directory => cases done
    | file bytes =>
      obtain ⟨target, located, done⟩ := bind_ok_iff.1 done
      cases done
      exact ⟨target.location, bytes, ⟨target, located, rfl⟩, found, rfl⟩
  · rintro ⟨_, bytes, ⟨target, located, rfl⟩, found, rfl⟩
    exact ⟨.file bytes, found, bind_ok_iff.2 ⟨target, located, rfl⟩⟩

theorem remove_directory (found : fs.status path = .ok .directory) :
    fs.remove path = .error ⟨.isDirectory, path, none⟩ := by
  rw [remove, bind_of_ok found]
  rfl

/-- A file is moved to a path that names a file or nothing, in place of what is there. -/
theorem rename_ok {target : String} {moved : FileSystem} (done : fs.rename path target = .ok moved) :
    ∃ (source goal : Target) (bytes : List UInt8), fs.locate path = .ok source ∧
      fs.status path = .ok (.file bytes) ∧ fs.locate target = .ok goal ∧ checkName goal = .ok () ∧
      goal.slash = false ∧ fs.find? goal.location ≠ some .directory ∧
      moved = (fs.erase source.location).put goal.location (.file bytes) := by
  rw [rename] at done
  split at done
  next renamed =>
    cases done
    simp only [bind_ok_iff, refuseIf_ok_iff] at renamed
    obtain ⟨_, _, source, located, goal, located', _, _, entry, found, renamed⟩ := renamed
    cases entry with
    | directory => cases renamed
    | file bytes =>
      simp only [bind_ok_iff, refuseIf_ok_iff, pure_ok_iff] at renamed
      obtain ⟨_, fits, _, bare, _, free, rfl⟩ := renamed
      exact ⟨source, goal, bytes, located, found, located', fits, bare, by simpa using free, rfl⟩
  next => cases done

theorem status_ne_null (plain : '\x00' ∉ path.toList) : fs.status path ≠ .error .nullCharacter := by
  intro failed
  rw [FileSystem.status] at failed
  rcases bind_error_iff.1 failed with null | ⟨target, _, failed⟩
  · exact plain (locate_null_iff.1 null)
  · rcases bind_error_iff.1 failed with long | ⟨_, _, failed⟩
    · exact checkName_ne_null long
    · split at failed
      next => cases failed
      next => split at failed <;> cases failed
      next => cases failed

theorem rename_ne_null {target : String} {error : SystemError} (plain : '\x00' ∉ path.toList)
    (plain' : '\x00' ∉ target.toList) (failed : fs.rename path target = .error error) :
    error.problem ≠ .nullCharacter := by
  rintro null
  rw [rename] at failed
  split at failed
  next => cases failed
  next problem renamed =>
    cases failed
    cases null
    simp only [bind_error_iff, refuseIf_error_iff, List.contains_eq_mem, List.mem_append, plain,
      plain', locate_null_iff, or_self, decide_false, Bool.false_eq_true, false_and, false_or,
      reduceCtorEq, and_false, status_ne_null plain] at renamed
    obtain ⟨_, _, _, _, _, _, _, _, entry, _, renamed⟩ := renamed
    cases entry with
    | directory => cases renamed
    | file bytes =>
      simp only [bind_error_iff, refuseIf_error_iff, checkName_ne_null, pure, Except.pure,
        reduceCtorEq, and_false, or_false, exists_false] at renamed

end
end PartialUpdate.FileSystem
