import PartialUpdate.Json.Read
import PartialUpdate.Json.Write

/-!
Strings in JSON text are read back: each character from its escape, up to the closing quote.
-/

set_option autoImplicit false

namespace PartialUpdate.Json

-- Powers mean the same whatever else is imported.
attribute [local instance (2000)] instPowNat

theorem codeUnit?_hexDigits : ∀ n < 0x20, codeUnit?
    (Text.hexDigit (n / 16 ^ (3 : Nat))) (Text.hexDigit (n / 16 ^ (2 : Nat)))
    (Text.hexDigit (n / 16 ^ (1 : Nat))) (Text.hexDigit (n / 16 ^ (0 : Nat))) = some n := by
  decide

theorem readUnicode_control {c : Char} (control : c.toNat < 0x20) {rest : List Char}
    (more : rest ≠ []) : readUnicode (Text.hexDigits 4 c.toNat ++ rest) = .ok (c, rest) := by
  cases rest with
  | nil => exact absurd rfl more
  | cons next rest =>
    have unit : readUnit (Text.hexDigits 4 c.toNat ++ next :: rest) = .ok (c.toNat, next :: rest) := by
      change readUnit (_ :: _ :: _ :: _ :: next :: rest) = _
      rw [readUnit, codeUnit?_hexDigits _ control]
    have low : isHighSurrogate c.toNat = false := by
      simp [isHighSurrogate]
      omega
    have same : unitChar c.toNat = c := by
      rw [unitChar, if_neg (by simp; omega), Char.ofNat_toNat]
    rw [readUnicode, unit]
    simp [low, same, bind, Except.bind, pure, Except.pure]

/-- A character is read back from its escape, before more of the string. -/
theorem readChars_escapedChar (opening : List Char) (steps : Nat) (c : Char) {rest : List Char}
    (more : rest ≠ []) : readChars opening (steps + 1) (escapedChar c ++ rest) = (do
      let (cs, rest) ← readChars opening steps rest
      return (c :: cs, rest)) := by
  unfold escapedChar
  split
  case h_8 other quote backslash _ _ _ _ _ =>
    split
    next control =>
      rw [List.cons_append, List.cons_append, readChars, readUnicode_control control more]
      rfl
    next plain =>
      rw [List.singleton_append, readChars, if_neg plain]
      · exact fun same => quote same
      · exact fun same _ => backslash same
      · exact fun _ same _ => backslash same
      · exact fun _ _ same _ => backslash same
  all_goals rfl

theorem readChars_escaped (opening : List Char) (cs : List Char) {steps : Nat}
    (enough : cs.length < steps) (rest : List Char) :
    readChars opening steps (cs.flatMap escapedChar ++ '"' :: rest) = .ok (cs, rest) := by
  induction cs generalizing steps with
  | nil =>
    cases steps with
    | zero => exact nomatch enough
    | succ steps => rfl
  | cons c cs ih =>
    cases steps with
    | zero => exact nomatch enough
    | succ steps =>
      rw [List.flatMap_cons, List.append_assoc, readChars_escapedChar _ _ _ (by simp),
        ih (by simpa using enough)]
      rfl

theorem length_escapedChar (c : Char) : 0 < (escapedChar c).length := by
  unfold escapedChar
  split
  case h_8 => split <;> simp
  all_goals decide

theorem readString_stringText (s : String) (rest : List Char) :
    ∃ cs, stringText s ++ rest = '"' :: cs ∧ readString cs = .ok (s, rest) := by
  have length : s.toList.length ≤ (s.toList.flatMap escapedChar).length := by
    generalize s.toList = cs
    induction cs with
    | nil => exact Nat.le_refl 0
    | cons c cs ih =>
      have one := length_escapedChar c
      rw [List.flatMap_cons, List.length_append, List.length_cons]
      omega
  refine ⟨s.toList.flatMap escapedChar ++ '"' :: rest, by simp [stringText], ?_⟩
  rw [readString, readChars_escaped _ _ (by rw [List.length_append]; omega)]
  simp [bind, Except.bind, pure, Except.pure]

end PartialUpdate.Json
