import PartialUpdate.Proofs.Json.Layout
import PartialUpdate.Proofs.Text.Lines

/-!
Texts that differ in the ends of their lines, and in blanks at the end. The scalars of one are read
from the other as well: a number stops at either blank, and a string holds neither a line break nor
the end of a text.
-/

set_option autoImplicit false

namespace PartialUpdate.Json

open Text (isBlank)

/-- A text and another spelling of it: a carriage return may have become a line feed, or be left
out before one, and blanks at the end may be missing. -/
inductive Respelled : List Char → List Char → Prop where
  | ended {blanks : List Char} (all : ∀ c ∈ blanks, isBlank c = true) : Respelled blanks []
  | kept (c : Char) {cs ds : List Char} (rest : Respelled cs ds) : Respelled (c :: cs) (c :: ds)
  | turned {cs ds : List Char} (rest : Respelled cs ds) : Respelled ('\r' :: cs) ('\n' :: ds)
  | joined {cs ds : List Char} (rest : Respelled cs ds) :
      Respelled ('\r' :: '\n' :: cs) ('\n' :: ds)

namespace Respelled

theorem refl (cs : List Char) : Respelled cs cs := by
  induction cs with
  | nil => exact .ended nofun
  | cons c cs ih => exact .kept c ih

theorem unified (cs : List Char) : Respelled cs (Text.unifyLineFeeds cs) := by
  fun_induction Text.unifyLineFeeds cs with
  | case1 => exact refl []
  | case2 rest ih => exact .joined ih
  | case3 c rest _ ih =>
    by_cases same : c = '\r'
    · subst same
      exact .turned ih
    · rw [if_neg (by simpa using same)]
      exact .kept c ih

theorem append_blanks (cs blanks : List Char)
    (all : ∀ c ∈ blanks, isBlank c = true) : Respelled (cs ++ blanks) cs := by
  induction cs with
  | nil => exact .ended all
  | cons c cs ih => exact .kept c ih

variable {cs ds : List Char}

/-- A character that is no blank is in both. -/
theorem solid {c : Char} (respelled : Respelled (c :: cs) ds) (plain : isBlank c = false) :
    ∃ es, ds = c :: es ∧ Respelled cs es := by
  cases respelled with
  | ended all => exact absurd (all c List.mem_cons_self) (by simp [plain])
  | kept _ rest => exact ⟨_, rfl, rest⟩
  | turned | joined => exact nomatch plain

@[inherit_doc solid]
theorem solid_back {d : Char} (respelled : Respelled cs (d :: ds)) (plain : isBlank d = false) :
    ∃ es, cs = d :: es ∧ Respelled es ds := by
  cases respelled with
  | kept _ rest => exact ⟨_, rfl, rest⟩
  | turned | joined => exact nomatch plain

theorem word (word : List Char) (respelled : Respelled (word ++ cs) ds)
    (plain : word.any isBlank = false) : ∃ es, ds = word ++ es ∧ Respelled cs es := by
  induction word generalizing ds with
  | nil => exact ⟨ds, rfl, respelled⟩
  | cons c word ih =>
    rw [List.any_cons, Bool.or_eq_false_iff] at plain
    obtain ⟨es, rfl, rest⟩ := respelled.solid plain.1
    obtain ⟨fs, rfl, after⟩ := ih rest plain.2
    exact ⟨fs, rfl, after⟩

theorem head_ne {c : Char} (respelled : Respelled cs ds) (plain : isBlank c = false)
    (differs : ∀ rest, cs ≠ c :: rest) (rest : List Char) : ds ≠ c :: rest := by
  rintro rfl
  obtain ⟨es, rfl, _⟩ := respelled.solid_back plain
  exact differs es rfl

/-- A mark at the front is in both, or in neither. -/
theorem front {c : Char} (respelled : Respelled cs ds) (plain : isBlank c = false) :
    (∃ rest es, cs = c :: rest ∧ ds = c :: es ∧ Respelled rest es) ∨
      (∀ rest, cs ≠ c :: rest) ∧ ∀ es, ds ≠ c :: es := by
  by_cases starts : ∃ rest, cs = c :: rest
  · obtain ⟨rest, rfl⟩ := starts
    obtain ⟨es, rfl, after⟩ := respelled.solid plain
    exact .inl ⟨rest, es, rfl, rfl, after⟩
  · have differs : ∀ rest, cs ≠ c :: rest := fun rest same => starts ⟨rest, same⟩
    exact .inr ⟨differs, respelled.head_ne plain differs⟩

theorem eq_nil (respelled : Respelled [] ds) : ds = [] := by
  cases respelled
  rfl

theorem length_le (respelled : Respelled cs ds) : ds.length ≤ cs.length := by
  induction respelled with
  | ended => exact Nat.zero_le _
  | kept _ _ ih => exact Nat.succ_le_succ ih
  | turned _ ih => exact Nat.succ_le_succ ih
  | joined _ ih => exact Nat.succ_le_succ (Nat.le_succ_of_le ih)

theorem skip (respelled : Respelled cs ds) : Respelled (skipSpace cs) (skipSpace ds) := by
  induction respelled with
  | ended all => exact .ended fun c listed => all c ((List.dropWhile_suffix _).mem listed)
  | @kept c cs ds rest ih =>
    cases space : isSpace c with
    | true => simpa [skipSpace, space] using ih
    | false => simpa [skipSpace, space] using Respelled.kept c rest
  | turned _ ih => exact ih
  | joined _ ih => exact ih

/-- Characters of a kind that no blank is of. -/
theorem span {kind : Char → Bool} (plain : ∀ c, kind c = true → isBlank c = false)
    (respelled : Respelled cs ds) :
    cs.takeWhile kind = ds.takeWhile kind ∧ Respelled (cs.dropWhile kind) (ds.dropWhile kind) := by
  have stop : ∀ c, isBlank c = true → kind c = false := fun c blank =>
    Bool.eq_false_iff.2 fun of => by simp [plain c of] at blank
  induction respelled with
  | @ended blanks all =>
    cases blanks with
    | nil => exact ⟨rfl, refl []⟩
    | cons c blanks =>
      have other := stop c (all c List.mem_cons_self)
      simp only [List.takeWhile_cons, other, List.dropWhile_cons]
      exact ⟨rfl, .ended all⟩
  | @kept c cs ds rest ih =>
    cases of : kind c with
    | true => simpa [of] using ih
    | false => simpa [of] using Respelled.kept c rest
  | turned rest => simpa [stop '\r' rfl, stop '\n' rfl] using Respelled.turned rest
  | joined rest => simpa [stop '\r' rfl, stop '\n' rfl] using Respelled.joined rest

end Respelled

theorem isBlank_of_graphic {c : Char} (lower : 0x20 < c.toNat) (upper : c.toNat < 0x7f) :
    isBlank c = false := by
  simp only [isBlank, Bool.or_eq_false_iff, Bool.and_eq_false_iff, decide_eq_false_iff_not,
    beq_eq_false_iff_ne]
  omega

theorem isBlank_of_isSpace {c : Char} (space : isSpace c = true) : isBlank c = true := by
  simp only [isSpace, Bool.or_eq_true, beq_iff_eq] at space
  rcases space with ((rfl | rfl) | rfl) | rfl <;> rfl

theorem isBlank_of_isDigit {c : Char} (digit : c.isDigit = true) : isBlank c = false := by
  simp only [Char.isDigit, Bool.and_eq_true, decide_eq_true_eq, UInt32.le_iff_toNat_le] at digit
  change 48 ≤ c.toNat ∧ c.toNat ≤ 57 at digit
  exact isBlank_of_graphic (by omega) (by omega)

theorem isBlank_of_hexValue? {c : Char} {n : Nat} (digit : hexValue? c = some n) :
    isBlank c = false := by
  have between : ∀ {low high : Char}, (decide (low ≤ c) && decide (c ≤ high)) = true →
      low.toNat ≤ c.toNat ∧ c.toNat ≤ high.toNat := fun inside => by
    simp only [Bool.and_eq_true, decide_eq_true_eq, Char.le_def, UInt32.le_iff_toNat_le] at inside
    exact inside
  have bounds : '0'.toNat ≤ c.toNat ∧ c.toNat ≤ 'f'.toNat := by
    unfold hexValue? at digit
    split at digit
    next inside => exact ⟨(between inside).1, Nat.le_trans (between inside).2 (by decide)⟩
    split at digit
    next inside => exact ⟨Nat.le_trans (by decide) (between inside).1, (between inside).2⟩
    split at digit
    next inside =>
      exact ⟨Nat.le_trans (by decide) (between inside).1, Nat.le_trans (between inside).2 (by decide)⟩
    · exact nomatch digit
  exact isBlank_of_graphic (Nat.lt_of_lt_of_le (by decide) bounds.1)
    (Nat.lt_of_le_of_lt bounds.2 (by decide))

theorem skipSpace_length_le (cs : List Char) : (skipSpace cs).length ≤ cs.length :=
  (List.dropWhile_sublist _).length_le

/-! Numbers: the parts of one are read from both texts, or from neither. -/

/-- What two texts leave of themselves after a part was read, of which the second is shorter than
the text was. -/
structure Leaves (rest ds es : List Char) : Prop where
  respelled : Respelled rest es
  shorter : es.length < ds.length

def Alongside {α : Type} (ds : List Char) (found other : α × List Char) : Prop :=
  found.1 = other.1 ∧ Leaves found.2 ds other.2

namespace Respelled
variable {cs ds : List Char}

theorem digits (respelled : Respelled cs ds) :
    (spanDigits cs).1 = (spanDigits ds).1 ∧ Respelled (spanDigits cs).2 (spanDigits ds).2 :=
  respelled.span fun _ => isBlank_of_isDigit

theorem spanDigits_length_le (cs : List Char) : (spanDigits cs).2.length ≤ cs.length :=
  (List.dropWhile_sublist _).length_le

theorem whole (respelled : Respelled cs ds) :
    Option.Rel (Alongside ds) (readWhole cs) (readWhole ds) := by
  by_cases starts : ∃ c rest, cs = c :: rest ∧ c.isDigit = true
  · obtain ⟨c, rest, rfl, digit⟩ := starts
    obtain ⟨es, rfl, after⟩ := respelled.solid (isBlank_of_isDigit digit)
    by_cases zero : c = '0'
    · subst zero
      exact .some ⟨rfl, after, Nat.lt_succ_self _⟩
    · have span : ∀ others, readWhole (c :: others) = some (spanDigits (c :: others)) := by
        intro others
        rw [readWhole, if_pos digit]
        exact fun same => zero same
      rw [span, span]
      refine .some ⟨respelled.digits.1, respelled.digits.2, ?_⟩
      rw [spanDigits, List.dropWhile_cons_of_pos digit]
      exact Nat.lt_succ_of_le (List.dropWhile_sublist _).length_le
  · have none : ∀ {others}, (∀ c rest, others = c :: rest → c.isDigit = false) →
        readWhole others = none := by
      intro others other
      unfold readWhole
      split
      · exact absurd (other _ _ rfl) (by decide)
      · rw [if_neg (by simp [other _ _ rfl])]
      · rfl
    -- The other spelling starts with a digit just if this one does.
    have left : ∀ c rest, cs = c :: rest → c.isDigit = false := fun c rest same =>
      Bool.eq_false_iff.2 fun digit => starts ⟨c, rest, same, digit⟩
    have right : ∀ c rest, ds = c :: rest → c.isDigit = false := fun c rest same =>
      Bool.eq_false_iff.2 fun digit => by
        obtain ⟨es, same, _⟩ := (same ▸ respelled).solid_back (isBlank_of_isDigit digit)
        exact starts ⟨c, es, same, digit⟩
    rw [none left, none right]
    exact .none

/-- At least one digit, after something else was read. -/
theorem someDigits {α : Type} (meaning : List Char → α) (respelled : Respelled cs ds)
    {all : List Char} (shorter : ds.length < all.length) :
    Option.Rel (Alongside all)
      (match spanDigits cs with
        | ([], _) => none
        | (digits, after) => some (meaning digits, after))
      (match spanDigits ds with
        | ([], _) => none
        | (digits, after) => some (meaning digits, after)) := by
  obtain ⟨same, left⟩ := respelled.digits
  have least := spanDigits_length_le ds
  cases span : spanDigits cs with
  | mk found others =>
  cases span' : spanDigits ds with
  | mk found' others' =>
    rw [span, span'] at same left
    rw [span'] at least
    cases same
    cases found with
    | nil => exact .none
    | cons c found => exact .some ⟨rfl, left, Nat.lt_of_le_of_lt least shorter⟩

theorem fraction (respelled : Respelled cs ds) :
    Option.Rel (Alongside ds) (readFraction cs) (readFraction ds) := by
  rcases respelled.front (c := '.') rfl with ⟨rest, es, rfl, rfl, after⟩ | ⟨differs, differs'⟩
  · exact after.someDigits id (Nat.lt_succ_self _)
  · rw [readFraction, readFraction]
    · exact .none
    · exact differs'
    · exact differs

/-- The sign and the digits of an exponent, after its letter. -/
theorem power {e : Char} (letter : (e == 'e' || e == 'E') = true) (respelled : Respelled cs ds) :
    Option.Rel (Alongside (e :: ds)) (readExponent (e :: cs)) (readExponent (e :: ds)) := by
  rcases respelled.front (c := '-') rfl with ⟨rest, es, rfl, rfl, after⟩ | ⟨minus, minus'⟩
  · rw [readExponent, readExponent, if_pos letter, if_pos letter]
    exact after.someDigits (fun digits => -(natOfDigits digits : Int))
      (Nat.lt_succ_of_lt (Nat.lt_succ_self _))
  rcases respelled.front (c := '+') rfl with ⟨rest, es, rfl, rfl, after⟩ | ⟨plus, plus'⟩
  · rw [readExponent, readExponent, if_pos letter, if_pos letter]
    exact after.someDigits (fun digits => (natOfDigits digits : Int))
      (Nat.lt_succ_of_lt (Nat.lt_succ_self _))
  · rw [readExponent, readExponent, if_pos letter, if_pos letter]
    · exact respelled.someDigits (fun digits => (natOfDigits digits : Int)) (Nat.lt_succ_self _)
    · exact minus'
    · exact plus'
    · exact minus
    · exact plus

theorem exponent (respelled : Respelled cs ds) :
    Option.Rel (Alongside ds) (readExponent cs) (readExponent ds) := by
  have none : ∀ {others : List Char}, (∀ rest, others ≠ 'e' :: rest) →
      (∀ rest, others ≠ 'E' :: rest) → readExponent others = none := by
    intro others small large
    cases others with
    | nil => rfl
    | cons c rest =>
      have small : c ≠ 'e' := fun same => small rest (same ▸ rfl)
      have large : c ≠ 'E' := fun same => large rest (same ▸ rfl)
      simp [readExponent, small, large]
  rcases respelled.front (c := 'e') rfl with ⟨rest, es, rfl, rfl, after⟩ | ⟨small, small'⟩
  · exact after.power rfl
  rcases respelled.front (c := 'E') rfl with ⟨rest, es, rfl, rfl, after⟩ | ⟨large, large'⟩
  · exact after.power rfl
  · rw [none small large, none small' large']
    exact .none

/-- A part that may be missing. -/
theorem missing {α : Type} {found other : Option (α × List Char)} (respelled : Respelled cs ds)
    (read : Option.Rel (Alongside ds) found other) (absent : α) :
    (found.getD (absent, cs)).1 = (other.getD (absent, ds)).1 ∧
      Respelled (found.getD (absent, cs)).2 (other.getD (absent, ds)).2 ∧
      (other.getD (absent, ds)).2.length ≤ ds.length ∧ found.isSome = other.isSome := by
  cases read with
  | none => exact ⟨rfl, respelled, Nat.le_refl _, rfl⟩
  | some alongside =>
    exact ⟨alongside.1, alongside.2.respelled, Nat.le_of_lt alongside.2.shorter, rfl⟩

theorem magnitude (negative : Bool) (respelled : Respelled cs ds) :
    Option.Rel (Alongside ds) (readMagnitude negative cs) (readMagnitude negative ds) := by
  have read := respelled.whole
  unfold readMagnitude
  generalize readWhole cs = whole at read ⊢
  generalize readWhole ds = whole' at read ⊢
  cases read with
  | none => exact .none
  | @some whole whole' alongside =>
    obtain ⟨digits, rest⟩ := whole
    obtain ⟨digits', rest'⟩ := whole'
    obtain ⟨same, left, shorter⟩ := alongside
    cases same
    obtain ⟨places, left, least, fraction⟩ := left.missing left.fraction []
    obtain ⟨scale, left, least', exponent⟩ := left.missing left.exponent 0
    simp only [Option.bind_eq_bind, Option.bind_some, ← places, ← scale, ← fraction, ← exponent]
    have fewer := Nat.lt_of_le_of_lt (Nat.le_trans least' least) shorter
    split
    · exact .some ⟨rfl, left, fewer⟩
    · exact .some ⟨rfl, left, fewer⟩

theorem number {negative : Bool} {value : Json} {rest : List Char} (respelled : Respelled cs ds)
    (read : readMagnitude negative cs = some (value, rest)) :
    ∃ es, Leaves rest ds es ∧ readMagnitude negative ds = some (value, es) := by
  have both := respelled.magnitude negative
  rw [read] at both
  generalize readMagnitude negative ds = other at both
  cases both with
  | @some _ other alongside =>
    obtain ⟨same, es⟩ := other
    obtain ⟨rfl, leaves⟩ := alongside
    exact ⟨es, leaves, rfl⟩

/-- A number or a word that is read from a text is read from another spelling of it. -/
theorem scalar (respelled : Respelled cs ds) {value : Json} {rest : List Char}
    (read : readScalar cs = .ok (value, rest)) :
    ∃ es, Leaves rest ds es ∧ readScalar ds = .ok (value, es) := by
  have word : ∀ (name : List Char) {value : Json} {after : List Char}, name ≠ [] →
      name.any isBlank = false →
      (∀ rest, readScalar (name ++ rest) = .ok (value, rest)) → cs = name ++ after →
      ∃ es, Leaves after ds es ∧ readScalar ds = .ok (value, es) := by
    rintro name value after given plain reads rfl
    obtain ⟨es, rfl, left⟩ := respelled.word name plain
    have shorter : es.length < (name ++ es).length := by
      rw [List.length_append]
      exact Nat.lt_add_of_pos_left (List.length_pos_iff.2 given)
    exact ⟨es, ⟨left, shorter⟩, reads es⟩
  unfold readScalar at read
  split at read
  · cases read
    exact word "null".toList (by decide) rfl (fun _ => rfl) rfl
  · cases read
    exact word "true".toList (by decide) rfl (fun _ => rfl) rfl
  · cases read
    exact word "false".toList (by decide) rfl (fun _ => rfl) rfl
  · cases read
    exact word "NaN".toList (by decide) rfl (fun _ => rfl) rfl
  · cases read
    exact word "Infinity".toList (by decide) rfl (fun _ => rfl) rfl
  · cases read
    exact word "-Infinity".toList (by decide) rfl (fun _ => rfl) rfl
  · split at read
    next found =>
      cases read
      obtain ⟨es, rfl, unsigned⟩ := respelled.solid rfl
      obtain ⟨after, ⟨left, shorter⟩, found⟩ := unsigned.number found
      exact ⟨after, ⟨left, Nat.lt_succ_of_lt shorter⟩, readScalar_negative found⟩
    · exact nomatch read
  · split at read
    next found =>
      cases read
      obtain ⟨after, leaves, found⟩ := respelled.number found
      exact ⟨after, leaves, readScalar_positive found⟩
    · exact nomatch read

end Respelled

/-! Strings. What follows an escape is left open at first: the last blanks of a text may be gone
from another spelling of it, but they are not the rest of a string. -/

theorem readUnit_digits {a b c d : Char} {unit : Nat} {rest : List Char}
    (digits : codeUnit? a b c d = some unit) (more : rest ≠ []) :
    readUnit (a :: b :: c :: d :: rest) = .ok (unit, rest) := by
  cases rest with
  | nil => exact absurd rfl more
  | cons next rest => rw [readUnit, digits]

theorem digits_of_readUnit {cs rest : List Char} {unit : Nat} (read : readUnit cs = .ok (unit, rest)) :
    ∃ a b c d, cs = a :: b :: c :: d :: rest ∧ codeUnit? a b c d = some unit := by
  unfold readUnit at read
  split at read
  · split at read
    next digits =>
      cases read
      exact ⟨_, _, _, _, rfl, digits⟩
    · exact nomatch read
  · exact nomatch read

theorem isBlank_of_codeUnit? {a b c d : Char} {unit : Nat} (digits : codeUnit? a b c d = some unit) :
    [a, b, c, d].any isBlank = false := by
  obtain ⟨_, first, digits⟩ := Option.bind_eq_some_iff.1 digits
  obtain ⟨_, second, digits⟩ := Option.bind_eq_some_iff.1 digits
  obtain ⟨_, third, digits⟩ := Option.bind_eq_some_iff.1 digits
  obtain ⟨_, fourth, _⟩ := Option.bind_eq_some_iff.1 digits
  simp [isBlank_of_hexValue? first, isBlank_of_hexValue? second, isBlank_of_hexValue? third,
    isBlank_of_hexValue? fourth]

theorem isBlank_of_escapeChar? {e c : Char} (escape : escapeChar? e = some c) :
    isBlank e = false := by
  unfold escapeChar? at escape
  split at escape
  case h_9 => exact nomatch escape
  all_goals decide

namespace Respelled
variable {cs ds rest : List Char}

theorem unit {unit : Nat} (respelled : Respelled cs ds) (read : readUnit cs = .ok (unit, rest)) :
    ∃ es, Respelled rest es ∧ ds.length = es.length + 4 ∧
      (es ≠ [] → readUnit ds = .ok (unit, es)) := by
  obtain ⟨a, b, c, d, rfl, digits⟩ := digits_of_readUnit read
  obtain ⟨es, rfl, after⟩ := Respelled.word [a, b, c, d] respelled (isBlank_of_codeUnit? digits)
  exact ⟨es, after, rfl, readUnit_digits digits⟩

/-- Where there is no second half of a surrogate pair, a text with less after it has none either. -/
theorem low_none (respelled : Respelled cs ds) (read : readLow cs = .ok none) :
    readLow ds = .ok none := by
  by_cases escape : ∃ es, ds = '\\' :: 'u' :: es
  · obtain ⟨es, rfl⟩ := escape
    obtain ⟨_, rfl, after⟩ := respelled.solid_back rfl
    obtain ⟨digits, rfl, left⟩ := after.solid_back rfl
    rw [readLow] at read ⊢
    by_cases short : (es.take 5).length < 5
    · rw [if_pos short]
    · have long : ¬ (digits.take 5).length < 5 := by
        have least := left.length_le
        rw [List.length_take] at short ⊢
        omega
      rw [if_neg long] at read
      rw [if_neg short]
      obtain ⟨⟨unit, _⟩, first, done⟩ := bind_ok_iff.1 read
      have high : isLowSurrogate unit = false := by
        cases low : isLowSurrogate unit with
        | false => rfl
        | true => simp [low, pure, Except.pure] at done
      obtain ⟨fs, _, length, again⟩ := left.unit first
      have more : fs ≠ [] := by
        rintro rfl
        exact short (by simp [length])
      refine bind_ok_iff.2 ⟨_, again more, ?_⟩
      simp [high]
      rfl
  · rw [readLow]
    exact fun es same => escape ⟨es, same⟩

theorem low_some {low : Nat} (respelled : Respelled cs ds)
    (read : readLow cs = .ok (some (low, rest))) :
    ∃ es, Leaves rest ds es ∧ (es ≠ [] → readLow ds = .ok (some (low, es))) := by
  unfold readLow at read
  split at read
  · split at read
    · exact nomatch read
    · obtain ⟨⟨unit, _⟩, first, done⟩ := bind_ok_iff.1 read
      have found := pure_ok_iff.1 done
      split at found
      next second =>
        cases found
        obtain ⟨digits, rfl, left⟩ := Respelled.word ['\\', 'u'] respelled rfl
        obtain ⟨es, after, length, again⟩ := left.unit first
        refine ⟨es, ⟨after, by simp [length]; omega⟩, fun more => ?_⟩
        have long : ¬ (digits.take 5).length < 5 := by
          have some := List.length_pos_iff.2 more
          rw [List.length_take]
          omega
        change readLow ('\\' :: 'u' :: digits) = _
        rw [readLow, if_neg long]
        exact bind_ok_iff.2 ⟨_, again more, by simp [second]; rfl⟩
      · exact nomatch found
  · exact nomatch read

theorem unicode {c : Char} (respelled : Respelled cs ds) (read : readUnicode cs = .ok (c, rest)) :
    ∃ es, Leaves rest ds es ∧ (es ≠ [] → readUnicode ds = .ok (c, es)) := by
  rw [readUnicode] at read
  obtain ⟨⟨unit, middle⟩, first, read⟩ := bind_ok_iff.1 read
  obtain ⟨es, left, length, again⟩ := respelled.unit first
  dsimp only at read
  split at read
  next high =>
    obtain ⟨found, second, read⟩ := bind_ok_iff.1 read
    cases found with
    | none =>
      cases pure_ok_iff.1 read
      refine ⟨es, ⟨left, by omega⟩, fun more => bind_ok_iff.2 ⟨_, again more, ?_⟩⟩
      dsimp only
      rw [if_pos high]
      exact bind_ok_iff.2 ⟨_, left.low_none second, rfl⟩
    | some found =>
      obtain ⟨rfl, rfl⟩ := Prod.mk.inj (pure_ok_iff.1 read)
      obtain ⟨fs, ⟨after, shorter⟩, second'⟩ := left.low_some second
      refine ⟨fs, ⟨after, by omega⟩, fun more => ?_⟩
      -- The second half of the pair was read from what is left, so something is.
      have some : es ≠ [] := List.ne_nil_of_length_pos (Nat.zero_lt_of_lt shorter)
      refine bind_ok_iff.2 ⟨_, again some, ?_⟩
      dsimp only
      rw [if_pos high]
      exact bind_ok_iff.2 ⟨_, second' more, rfl⟩
  next other =>
    cases pure_ok_iff.1 read
    refine ⟨es, ⟨left, by omega⟩, fun more => bind_ok_iff.2 ⟨_, again more, ?_⟩⟩
    dsimp only
    rw [if_neg other]
    rfl

end Respelled

/-- A reader with a bound finds a value in a text. The number of characters that it takes is enough
of a bound. -/
def Repeats {α : Type} (read : Nat → List Char → Except Fault (α × List Char)) (found : α)
    (rest ds : List Char) : Prop :=
  ∃ es, Leaves rest ds es ∧
    ∀ bound, ds.length ≤ bound + es.length → read bound ds = .ok (found, es)

theorem Repeats.mk {α : Type} {read : Nat → List Char → Except Fault (α × List Char)} {found : α}
    {rest ds es : List Char} (leaves : Leaves rest ds es)
    (again : ∀ bound, ds.length ≤ bound + 1 + es.length → read (bound + 1) ds = .ok (found, es)) :
    Repeats read found rest ds := by
  refine ⟨es, leaves, fun bound enough => ?_⟩
  cases bound with
  | zero => exact absurd leaves.shorter (by omega)
  | succ bound => exact again bound enough

namespace Respelled
variable {cs ds rest : List Char}

theorem chars {opening found : List Char} {steps : Nat} (start : List Char)
    (respelled : Respelled cs ds) (read : readChars opening steps cs = .ok (found, rest)) :
    Repeats (readChars start) found rest ds := by
  fun_induction readChars opening steps cs generalizing ds found rest with
  | case1 | case2 | case4 | case7 | case8 => cases read
  | case3 steps after =>
    cases read
    obtain ⟨es, rfl, left⟩ := respelled.solid rfl
    exact .mk ⟨left, Nat.lt_succ_self _⟩ fun bound _ => rfl
  | case5 steps after ih =>
    obtain ⟨⟨c, middle⟩, first, read⟩ := bind_ok_iff.1 read
    obtain ⟨⟨others, _⟩, inner, done⟩ := bind_ok_iff.1 read
    cases pure_ok_iff.1 done
    obtain ⟨fs, rfl, left⟩ := Respelled.word ['\\', 'u'] respelled rfl
    obtain ⟨es, ⟨left, shorter⟩, first'⟩ := left.unicode first
    obtain ⟨es', ⟨left, shorter'⟩, again⟩ := ih _ left inner
    have more : es ≠ [] := List.ne_nil_of_length_pos (Nat.zero_lt_of_lt shorter')
    refine .mk ⟨left, by simp; omega⟩ fun bound enough => ?_
    simp only [List.cons_append, List.nil_append, List.length_cons] at enough
    change readChars start (bound + 1) ('\\' :: 'u' :: fs) = _
    rw [readChars]
    exact bind_ok_iff.2 ⟨_, first' more, bind_ok_iff.2 ⟨_, again bound (by omega), rfl⟩⟩
  | case6 steps e after unit c escape ih =>
    obtain ⟨⟨others, _⟩, inner, done⟩ := bind_ok_iff.1 read
    cases pure_ok_iff.1 done
    have plain := isBlank_of_escapeChar? escape
    obtain ⟨fs, rfl, marked⟩ := respelled.solid rfl
    obtain ⟨es, rfl, after⟩ := marked.solid plain
    obtain ⟨es', ⟨left, shorter⟩, again⟩ := ih after inner
    refine .mk ⟨left, by simp; omega⟩ fun bound enough => ?_
    simp only [List.length_cons] at enough
    rw [readChars, escape]
    · exact bind_ok_iff.2 ⟨_, again bound (by omega), rfl⟩
    · exact unit
  | case9 steps c after quote last _ escape printable ih =>
    have backslash : c ≠ '\\' := fun same => by
      cases after with
      | nil => exact last same rfl
      | cons e after => exact escape e after same rfl
    obtain ⟨⟨others, _⟩, inner, done⟩ := bind_ok_iff.1 read
    cases pure_ok_iff.1 done
    cases respelled with
    | ended all =>
      -- The closing quote is still to come, so this blank is not at the end.
      obtain ⟨es, ⟨_, shorter⟩, _⟩ := ih (.ended fun c listed => all c (.tail _ listed)) inner
      exact absurd shorter (Nat.not_lt_zero _)
    | @kept _ _ es left =>
      obtain ⟨es', ⟨left, shorter⟩, again⟩ := ih left inner
      refine .mk ⟨left, Nat.lt_succ_of_lt shorter⟩ fun bound enough => ?_
      simp only [List.length_cons] at enough
      rw [readChars, if_neg printable]
      · exact bind_ok_iff.2 ⟨_, again bound (by omega), rfl⟩
      · exact quote
      · exact fun same _ => backslash same
      · exact fun _ same _ => backslash same
      · exact fun _ _ same _ => backslash same
    | turned | joined => exact absurd (by decide) printable

theorem text {found : String} (respelled : Respelled cs ds)
    (read : readString cs = .ok (found, rest)) :
    ∃ es, Leaves rest ds es ∧ readString ds = .ok (found, es) := by
  obtain ⟨⟨chars, _⟩, inner, done⟩ := bind_ok_iff.1 read
  cases pure_ok_iff.1 done
  obtain ⟨es, leaves, again⟩ := respelled.chars ('"' :: ds) inner
  exact ⟨es, leaves, bind_ok_iff.2 ⟨_, again _ (by omega), rfl⟩⟩

end Respelled

end PartialUpdate.Json
