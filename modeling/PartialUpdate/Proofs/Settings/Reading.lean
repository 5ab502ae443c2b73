import PartialUpdate.Proofs.Number.Integer
import PartialUpdate.Proofs.Outcome
import PartialUpdate.Settings.Basic

/-!
What loose values stand for: log levels by their names, truth values by numbers and words, and
integers by numbers and texts. A value that stands for nothing is refused, and so is a negative
indentation; only an infinite one fails in another way.
-/

set_option autoImplicit false

namespace PartialUpdate

def SettingError.Foreign : SettingError → Prop
  | infiniteIndent => True
  | _ => False

namespace Settings

inductive NamesLevel : Config.Value → String → Prop where
  | text {text level : String} : level = String.ofList (Text.capitals (Text.trim text.toList)) →
      level ∈ levels → NamesLevel (.string text) level

/-- Numbers that are not zero stand for truth; a text does if it is one of the words for it. -/
inductive TellsTruth : Config.Value → Bool → Prop where
  | bool (b : Bool) : TellsTruth (.bool b) b
  | int (n : Int) : TellsTruth (.int n) (n != 0)
  | float (x : Double) : TellsTruth (.float x) (!x.isZero)
  | yes {text : String} : String.ofList ((Text.trim text.toList).map Text.small) ∈ trueWords →
      TellsTruth (.string text) true
  | no {text : String} : String.ofList ((Text.trim text.toList).map Text.small) ∈ falseWords →
      TellsTruth (.string text) false

/-- Finite numbers stand for integers without their fractions, and texts for those they write. -/
inductive TellsInteger : Config.Value → Int → Prop where
  | bool (b : Bool) : TellsInteger (.bool b) (if b then 1 else 0)
  | int (n : Int) : TellsInteger (.int n) n
  | float {x : Double} {n : Int} : x.truncate? = some n → TellsInteger (.float x) n
  | text {text : String} {n : Int} : Integer.ofText? text = some n → TellsInteger (.string text) n

theorem tellsInteger_text_iff {text : String} {n : Int} : TellsInteger (.string text) n ↔
    Integer.Spells (text.toList.map Integer.asciiForm) n := by
  rw [← Integer.ofText?_eq_some_iff]
  exact ⟨fun tells => by cases tells; assumption, .text⟩

def TellsIndent (value : Config.Value) (indent : Int) : Prop :=
  TellsInteger value indent ∧ 0 ≤ indent

section
variable {value : Config.Value}

theorem readLevel_ok_iff {level : String} : readLevel value = .ok level ↔ NamesLevel value level := by
  constructor
  · intro done
    cases value with
    | string text =>
      rw [readLevel] at done
      split at done
      next known =>
        cases done
        exact .text rfl (List.contains_iff_mem.1 known)
      next => cases done
    | _ => cases done
  · rintro ⟨rfl, known⟩
    rw [readLevel, if_pos (List.contains_iff_mem.2 known)]

theorem readBool_ok_iff {key : String} {b : Bool} :
    readBool key value = .ok b ↔ TellsTruth value b := by
  -- No word says both.
  have apart : ∀ word ∈ falseWords, trueWords.contains word = false := by decide
  constructor
  · intro done
    cases value with
    | bool b => cases done; exact .bool b
    | int n => cases done; exact .int n
    | float x => cases done; exact .float x
    | string text =>
      rw [readBool] at done
      split at done
      next yes =>
        cases done
        exact .yes (List.contains_iff_mem.1 yes)
      next =>
        split at done
        next no =>
          cases done
          exact .no (List.contains_iff_mem.1 no)
        next => cases done
    | _ => cases done
  · intro tells
    cases tells with
    | yes yes =>
      rw [readBool, if_pos (List.contains_iff_mem.2 yes)]
    | no no =>
      rw [readBool, apart _ no, if_neg Bool.false_ne_true, if_pos (List.contains_iff_mem.2 no)]
    | _ => rfl

theorem readInteger_ok_iff {n : Int} : readInteger value = .ok n ↔ TellsInteger value n := by
  constructor
  · intro done
    cases value with
    | bool b => cases done; exact .bool b
    | int n => cases done; exact .int n
    | float x =>
      cases x with
      | infinite negative => cases done
      | nan => cases done
      | finite negative rank => cases done; exact .float rfl
    | string text =>
      rw [readInteger] at done
      split at done
      next n found =>
        cases done
        exact .text found
      next => cases done
    | _ => cases done
  · intro tells
    cases tells with
    | bool b => rfl
    | int n => rfl
    | @float x n whole =>
      cases x with
      | infinite negative => cases whole
      | nan => cases whole
      | finite negative rank => cases whole; rfl
    | text found =>
      rw [readInteger, found]

theorem readIndent_of_ok {n : Int} (done : readInteger value = .ok n) :
    readIndent value = if n < 0 then .error (.negativeIndent n) else .ok n := by
  rw [readIndent, bind_of_ok done]
  split <;> rfl

theorem readIndent_ok_iff {indent : Int} :
    readIndent value = .ok indent ↔ TellsIndent value indent := by
  rw [TellsIndent, ← readInteger_ok_iff]
  cases read : readInteger value with
  | error error =>
    rw [readIndent, bind_of_error read]
    simp
  | ok n =>
    rw [readIndent_of_ok read]
    split <;> simp <;> omega

/-! What stands for nothing is refused, but an infinite number as an integer. -/

theorem readLevel_error {error : SettingError} (failed : readLevel value = .error error) :
    error = .unknownLevel value := by
  cases value with
  | string text =>
    rw [readLevel] at failed
    split at failed <;> cases failed
    rfl
  | _ => cases failed; rfl

theorem readBool_error {key : String} {error : SettingError}
    (failed : readBool key value = .error error) : error = .notBoolean key value := by
  cases value with
  | bool b => cases failed
  | int n => cases failed
  | float x => cases failed
  | string text =>
    rw [readBool] at failed
    split at failed
    · cases failed
    · split at failed <;> cases failed
      rfl
  | _ => cases failed; rfl

theorem readInteger_error {error : SettingError} (failed : readInteger value = .error error) :
    (∃ negative, value = .float (.infinite negative)) ∧ error = .infiniteIndent ∨
      (∀ negative, value ≠ .float (.infinite negative)) ∧ error = .notInteger value := by
  cases value with
  | bool b => cases failed
  | int n => cases failed
  | float x =>
    cases x with
    | infinite negative => cases failed; exact .inl ⟨⟨negative, rfl⟩, rfl⟩
    | nan => cases failed; exact .inr ⟨nofun, rfl⟩
    | finite negative rank => cases failed
  | string text =>
    rw [readInteger] at failed
    split at failed <;> cases failed
    exact .inr ⟨nofun, rfl⟩
  | _ => cases failed; exact .inr ⟨nofun, rfl⟩

theorem readIndent_infinite_iff :
    readIndent value = .error .infiniteIndent ↔ ∃ negative, value = .float (.infinite negative) := by
  constructor
  · intro failed
    cases read : readInteger value with
    | ok n =>
      rw [readIndent_of_ok read] at failed
      split at failed <;> cases failed
    | error error =>
      rw [readIndent, bind_of_error read] at failed
      cases failed
      exact (readInteger_error read).elim (·.1) fun other => nomatch other.2
  · rintro ⟨negative, rfl⟩
    rfl

theorem readLevel_refuses {error : SettingError} (failed : readLevel value = .error error) :
    ¬ error.Foreign := by
  rw [readLevel_error failed]
  exact id

theorem readBool_refuses {key : String} {error : SettingError}
    (failed : readBool key value = .error error) : ¬ error.Foreign := by
  rw [readBool_error failed]
  exact id

theorem foreign_iff {error : SettingError} : error.Foreign ↔ error = .infiniteIndent := by
  cases error <;> simp [SettingError.Foreign]

end

end Settings
end PartialUpdate
