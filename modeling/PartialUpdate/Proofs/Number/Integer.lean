import PartialUpdate.Number.Integer

/-!
What is read as an integer: digits of any script, which single underscores may group, after a sign
or none, with padding around both. Every other text is refused.
-/

set_option autoImplicit false

namespace PartialUpdate.Integer

/-- Digits, with single underscores between them or not; the digits alone are given beside. -/
inductive Grouped : List Char → List Char → Prop where
  | last {c : Char} (digit : c.isDigit = true) : Grouped [c] [c]
  | next {c : Char} {cs digits : List Char} (digit : c.isDigit = true)
      (rest : Grouped cs digits) : Grouped (c :: cs) (c :: digits)
  | parted {c : Char} {cs digits : List Char} (digit : c.isDigit = true)
      (rest : Grouped cs digits) : Grouped (c :: '_' :: cs) (c :: digits)

theorem Grouped.head {cs digits : List Char} (grouped : Grouped cs digits) :
    ∃ c rest, cs = c :: rest ∧ c.isDigit = true := by
  cases grouped with
  | last digit | next digit _ | parted digit _ => exact ⟨_, _, rfl, digit⟩

theorem groupedDigits?_eq_some_iff {cs digits : List Char} :
    groupedDigits? cs = some digits ↔ Grouped cs digits := by
  constructor
  · intro read
    fun_induction groupedDigits? cs generalizing digits with
    | case1 => cases read
    | case2 c digit =>
      cases read
      exact .last digit
    | case3 c noDigit => cases read
    | case4 c rest digit ih =>
      obtain ⟨others, inside, rfl⟩ := Option.map_eq_some_iff.1 read
      exact .parted digit (ih inside)
    | case5 => cases read
    | case6 c rest _ _ digit ih =>
      obtain ⟨others, inside, rfl⟩ := Option.map_eq_some_iff.1 read
      exact .next digit (ih inside)
    | case7 => cases read
  · intro grouped
    induction grouped with
    | last digit => simp [groupedDigits?, digit]
    | @next c cs digits digit rest ih =>
      obtain ⟨first, others, rfl, digit'⟩ := rest.head
      -- What follows starts with a digit, so this digit is not parted from it.
      have apart : first ≠ '_' := by
        rintro rfl
        cases digit'
      simp [groupedDigits?, digit, ih, apart]
    | parted digit _ ih => simp [groupedDigits?, digit, ih]

theorem Grouped.last? {cs digits : List Char} (grouped : Grouped cs digits) :
    ∃ front c, cs = front ++ [c] ∧ c.isDigit = true := by
  induction grouped with
  | last digit => exact ⟨[], _, rfl, digit⟩
  | @next c _ _ _ _ ih =>
    obtain ⟨front, d, rfl, digit⟩ := ih
    exact ⟨c :: front, d, rfl, digit⟩
  | @parted c _ _ _ _ ih =>
    obtain ⟨front, d, rfl, digit⟩ := ih
    exact ⟨c :: '_' :: front, d, rfl, digit⟩

/-- A sign as it is written, and whether it is a minus. -/
inductive Sign : List Char → Bool → Prop where
  | none : Sign [] false
  | plus : Sign ['+'] false
  | minus : Sign ['-'] true

theorem splitSign_eq_iff {cs body digits : List Char} {negative : Bool}
    (grouped : Grouped body digits) :
    splitSign cs = (negative, body) ↔ ∃ sign, Sign sign negative ∧ cs = sign ++ body := by
  obtain ⟨c, rest, rfl, digit⟩ := grouped.head
  constructor
  · intro split
    unfold splitSign at split
    split at split <;> cases split
    · exact ⟨['-'], .minus, rfl⟩
    · exact ⟨['+'], .plus, rfl⟩
    · exact ⟨[], .none, rfl⟩
  · rintro ⟨sign, signed, rfl⟩
    cases signed with
    | none =>
      unfold splitSign
      split
      next same => cases same; cases digit
      next same => cases same; cases digit
      next => rfl
    | plus | minus => rfl

/-- The characters of an integer: its digits after a sign or none, with padding around both. -/
inductive Spells : List Char → Int → Prop where
  | mk {before sign body after digits : List Char} {negative : Bool}
      (padded : ∀ c ∈ before, isPadding c = true) (signed : Sign sign negative)
      (grouped : Grouped body digits) (padded' : ∀ c ∈ after, isPadding c = true) :
      Spells (before ++ (sign ++ body) ++ after) (ofDigits negative digits)

theorem exists_padding (cs : List Char) : ∃ before after,
    cs = before ++ ((cs.dropWhile isPadding).reverse.dropWhile isPadding).reverse ++ after ∧
      (∀ c ∈ before, isPadding c = true) ∧ ∀ c ∈ after, isPadding c = true := by
  refine ⟨cs.takeWhile isPadding, ((cs.dropWhile isPadding).reverse.takeWhile isPadding).reverse,
    ?_, fun c listed => List.all_eq_true.1 List.all_takeWhile c listed, fun c listed => ?_⟩
  · rw [List.append_assoc, ← List.reverse_append, List.takeWhile_append_dropWhile,
      List.reverse_reverse, List.takeWhile_append_dropWhile]
  · exact List.all_eq_true.1 List.all_takeWhile c (List.mem_reverse.1 listed)

/-- Padding is taken off up to a character that is none, at both ends. -/
theorem unpadded_eq {before after inner front rest : List Char} {first last : Char}
    (padded : ∀ c ∈ before, isPadding c = true) (padded' : ∀ c ∈ after, isPadding c = true)
    (starts : inner = first :: rest) (plain : isPadding first = false)
    (ends : inner = front ++ [last]) (plain' : isPadding last = false) :
    (((before ++ inner ++ after).dropWhile isPadding).reverse.dropWhile isPadding).reverse =
      inner := by
  have start : (before ++ inner ++ after).dropWhile isPadding = inner ++ after := by
    rw [List.append_assoc, List.dropWhile_append_of_pos padded, starts]
    simp [plain]
  have final : (inner ++ after).reverse.dropWhile isPadding = inner.reverse := by
    rw [List.reverse_append, List.dropWhile_append_of_pos (by simpa using padded'), ends]
    simp [plain']
  rw [start, final, List.reverse_reverse]

theorem isPadding_of_isDigit {c : Char} (digit : c.isDigit = true) : isPadding c = false := by
  have bounds : 48 ≤ c.toNat ∧ c.toNat ≤ 57 := by
    simpa [Char.isDigit, UInt32.le_iff_toNat_le] using digit
  have space : c ≠ ' ' := by
    rintro rfl
    cases digit
  have control : ¬ c.toNat ≤ 13 := by omega
  simp [isPadding, space, control]

/-- An integer is read from its characters, of any script, and from nothing else. -/
theorem ofText?_eq_some_iff {text : String} {n : Int} :
    ofText? text = some n ↔ Spells (text.toList.map asciiForm) n := by
  generalize forms : text.toList.map asciiForm = cs
  simp only [ofText?, forms, Option.map_eq_some_iff]
  constructor
  · rintro ⟨digits, read, rfl⟩
    obtain ⟨before, after, whole, padded, padded'⟩ := exists_padding cs
    generalize ((cs.dropWhile isPadding).reverse.dropWhile isPadding).reverse = inner at read whole ⊢
    rcases parted : splitSign inner with ⟨negative, body⟩
    rw [parted] at read
    have grouped := groupedDigits?_eq_some_iff.1 read
    obtain ⟨sign, signed, rfl⟩ := (splitSign_eq_iff grouped).1 parted
    rw [whole]
    exact .mk padded signed grouped padded'
  · intro spells
    cases spells with
    | @mk before sign body after digits negative padded signed grouped padded' =>
      obtain ⟨c, rest, starts, digit⟩ := grouped.head
      obtain ⟨front, d, ends, digit'⟩ := grouped.last?
      have first : ∃ c rest, sign ++ body = c :: rest ∧ isPadding c = false := by
        cases signed with
        | none => exact ⟨c, rest, starts, isPadding_of_isDigit digit⟩
        | plus | minus => exact ⟨_, body, rfl, rfl⟩
      obtain ⟨_, _, starts, plain⟩ := first
      have last : sign ++ body = sign ++ front ++ [d] := by rw [ends, List.append_assoc]
      rw [unpadded_eq padded padded' starts plain last (isPadding_of_isDigit digit'),
        (splitSign_eq_iff grouped).2 ⟨sign, signed, rfl⟩]
      exact ⟨digits, groupedDigits?_eq_some_iff.2 grouped, rfl⟩

end PartialUpdate.Integer
