import PartialUpdate.Json.Read
import PartialUpdate.Json.Write
import PartialUpdate.Proofs.Number.Shortest

/-!
Numbers in JSON text are read back: integers as themselves, and doubles as the doubles that they
were written for. What follows a number must not look like more of it.
-/

set_option autoImplicit false

namespace PartialUpdate.Json

-- Powers mean the same whatever else is imported.
attribute [local instance (2000)] instPowNat

def endsNumber (c : Char) : Bool := !(c.isDigit || c == '.' || c == 'e' || c == 'E')

def Follows (rest : List Char) : Prop := ∀ c ∈ rest.head?, endsNumber c = true

theorem Follows.noDigit {rest : List Char} (follows : Follows rest) :
    ∀ c ∈ rest.head?, c.isDigit = false := by
  intro c first
  have ends := follows c first
  simp only [endsNumber, Bool.not_eq_true', Bool.or_eq_false_iff] at ends
  exact ends.1.1.1

theorem Follows.cons_ne {c : Char} {rest : List Char} (follows : Follows (c :: rest)) :
    c ≠ '.' ∧ c ≠ 'e' ∧ c ≠ 'E' := by
  have ends := follows c rfl
  simp only [endsNumber, Bool.not_eq_true', Bool.or_eq_false_iff, beq_eq_false_iff_ne] at ends
  exact ⟨ends.1.1.2, ends.1.2, ends.2⟩

def Digits (digits : List Char) : Prop := ∀ c ∈ digits, c.isDigit = true

theorem Digits.append {a b : List Char} (left : Digits a) (right : Digits b) : Digits (a ++ b) :=
  fun c listed => (List.mem_append.1 listed).elim (left c) (right c)

theorem digits_digitChars (n : Nat) : Digits (Decimal.digitChars n) :=
  fun _ listed => Nat.isDigit_of_mem_toDigits (by decide) (by decide) listed

theorem digits_zeros (n : Nat) : Digits (List.replicate n '0') := by
  intro c listed
  rw [List.eq_of_mem_replicate listed]
  rfl

theorem spanDigits_append {digits rest : List Char} (all : Digits digits)
    (noDigit : ∀ c ∈ rest.head?, c.isDigit = false) :
    spanDigits (digits ++ rest) = (digits, rest) := by
  have stop : rest.takeWhile Char.isDigit = [] ∧ rest.dropWhile Char.isDigit = rest := by
    cases rest with
    | nil => exact ⟨rfl, rfl⟩
    | cons c rest => simp [noDigit c rfl]
  rw [spanDigits, List.takeWhile_append_of_pos all, List.dropWhile_append_of_pos all, stop.1, stop.2,
    List.append_nil]

/-! The value of digits. -/

theorem natOfDigits_digitChars (n : Nat) : natOfDigits (Decimal.digitChars n) = n :=
  Nat.ofDigitChars_ten_toDigits

theorem natOfDigits_zeros_append (n : Nat) (digits : List Char) :
    natOfDigits (List.replicate n '0' ++ digits) = natOfDigits digits := by
  simp [natOfDigits, Nat.ofDigitChars_append]

theorem natOfDigits_append_zeros (digits : List Char) (n : Nat) :
    natOfDigits (digits ++ List.replicate n '0') = natOfDigits digits * 10 ^ n := by
  simp [natOfDigits, Nat.ofDigitChars_append, Nat.mul_comm]

/-! A whole part is zero, or digits that do not start with zero. -/

structure Whole (whole : List Char) : Prop where
  nonempty : whole ≠ []
  digits : Digits whole
  zero : whole.head? = some '0' → whole = ['0']

theorem Whole.read {whole rest : List Char} (lawful : Whole whole)
    (noDigit : ∀ c ∈ rest.head?, c.isDigit = false) :
    readWhole (whole ++ rest) = some (whole, rest) := by
  cases whole with
  | nil => exact absurd rfl lawful.nonempty
  | cons c more =>
    by_cases zero : c = '0'
    · cases lawful.zero (congrArg some zero)
      rfl
    · have first : c.isDigit = true := lawful.digits c List.mem_cons_self
      rw [List.cons_append, readWhole, if_pos first, ← List.cons_append,
        spanDigits_append lawful.digits noDigit]
      exact fun same => zero same

theorem head?_append {a : List Char} (given : a ≠ []) (b : List Char) :
    (a ++ b).head? = a.head? := by
  cases a with
  | nil => exact absurd rfl given
  | cons c rest => rfl

theorem digitChars_head {n : Nat} (positive : 0 < n) :
    (Decimal.digitChars n).head? ≠ some '0' := by
  induction n using Nat.base_induction 10 (by decide) with
  | single n bound =>
    have nonzero : ∀ n < 10, 0 < n → some n.digitChar ≠ some '0' := by decide
    rw [Decimal.digitChars, Nat.toDigits_of_lt_base bound]
    exact nonzero n bound positive
  | digit n k bound first ih =>
    rw [Decimal.digitChars, ← Nat.toDigits_append_toDigits (by decide) first bound,
      head?_append Nat.toDigits_ne_nil]
    exact ih first

theorem whole_digitChars (n : Nat) : Whole (Decimal.digitChars n) where
  nonempty := Nat.toDigits_ne_nil
  digits := digits_digitChars n
  zero first := by
    by_cases zero : n = 0
    · rw [zero]
      rfl
    · exact absurd first (digitChars_head (Nat.pos_of_ne_zero zero))

/-! The forms of numbers. -/

theorem readFraction_none {rest : List Char} (noPoint : ∀ c ∈ rest.head?, c ≠ '.') :
    readFraction rest = none := by
  cases rest with
  | nil => rfl
  | cons c rest =>
    have differ := noPoint c rfl
    rw [readFraction]
    exact fun _ same => differ (List.cons.inj same).1

theorem readFraction_some {places rest : List Char} (given : places ≠ []) (digits : Digits places)
    (noDigit : ∀ c ∈ rest.head?, c.isDigit = false) :
    readFraction ('.' :: (places ++ rest)) = some (places, rest) := by
  rw [readFraction, spanDigits_append digits noDigit]
  cases places with
  | nil => exact absurd rfl given
  | cons c more => rfl

theorem Follows.readExponent {rest : List Char} (follows : Follows rest) :
    readExponent rest = none := by
  cases rest with
  | nil => rfl
  | cons c rest =>
    obtain ⟨_, small, large⟩ := follows.cons_ne
    simp [Json.readExponent, small, large]

/-- A sign and digits after the letter of an exponent. -/
theorem readExponent_sign {digits rest : List Char} (given : digits ≠ []) (all : Digits digits)
    (follows : Follows rest) (negative : Bool) :
    readExponent ('e' :: (if negative then '-' else '+') :: (digits ++ rest)) =
      some (if negative then -(natOfDigits digits : Int) else natOfDigits digits, rest) := by
  have span := spanDigits_append all follows.noDigit
  cases digits with
  | nil => exact absurd rfl given
  | cons c more =>
    rw [List.cons_append] at span ⊢
    cases negative <;> simp [readExponent, span]

theorem readExponent_some {rest : List Char} (exponent : Int) (follows : Follows rest) :
    readExponent ('e' :: (numberStyle.exponentText exponent ++ rest)) = some (exponent, rest) := by
  have text : numberStyle.exponentText exponent = (if decide (exponent < 0) then '-' else '+') ::
      (List.replicate (2 - (Decimal.digitChars exponent.natAbs).length) '0' ++
        Decimal.digitChars exponent.natAbs) := by
    simp [NumberStyle.exponentText, numberStyle]
  rw [text, List.cons_append, readExponent_sign (by simp [Decimal.digitChars])
    ((digits_zeros _).append (digits_digitChars _)) follows, natOfDigits_zeros_append,
    natOfDigits_digitChars]
  by_cases below : exponent < 0
  · rw [if_pos (decide_eq_true below)]
    congr 2
    omega
  · rw [if_neg (by simpa using below)]
    congr 2
    omega

/-- An integer without its sign. -/
theorem readMagnitude_int (negative : Bool) {whole rest : List Char} (lawful : Whole whole)
    (follows : Follows rest) : readMagnitude negative (whole ++ rest) =
      some (int (if negative then -(natOfDigits whole : Int) else natOfDigits whole), rest) := by
  have noPoint : ∀ c ∈ rest.head?, c ≠ '.' := by
    intro c first
    cases rest with
    | nil => exact nomatch first
    | cons other rest =>
      cases first
      exact follows.cons_ne.1
  simp [readMagnitude, lawful.read follows.noDigit, readFraction_none noPoint, follows.readExponent]

/-- A double without its sign and without an exponent. -/
theorem readMagnitude_positional (negative : Bool) {whole places rest : List Char}
    (lawful : Whole whole) (given : places ≠ []) (digits : Digits places) (follows : Follows rest) :
    readMagnitude negative (whole ++ '.' :: (places ++ rest)) =
      some (float (Double.ofDecimal negative ⟨natOfDigits (whole ++ places), -places.length⟩),
        rest) := by
  have point : ∀ c ∈ ('.' :: (places ++ rest)).head?, c.isDigit = false := by
    rintro c ⟨⟩
    rfl
  simp [readMagnitude, lawful.read point, readFraction_some given digits follows.noDigit,
    follows.readExponent]

def mantissaTail (places : List Char) : List Char := if places = [] then [] else '.' :: places

/-- A double without its sign and with an exponent. -/
theorem readMagnitude_scientific (negative : Bool) {lead : Char} {places rest : List Char}
    (digit : lead.isDigit = true) (digits : Digits places) (exponent : Int)
    (follows : Follows rest) :
    readMagnitude negative
        (lead :: (mantissaTail places ++ 'e' :: (numberStyle.exponentText exponent ++ rest))) =
      some (float (Double.ofDecimal negative
        ⟨natOfDigits (lead :: places), exponent - places.length⟩), rest) := by
  have lawful : Whole [lead] :=
    ⟨by simp, fun c listed => by rw [List.mem_singleton.1 listed]; exact digit,
      fun first => by rw [Option.some.inj first]⟩
  have letter : ∀ c ∈ ('e' :: (numberStyle.exponentText exponent ++ rest)).head?,
      c.isDigit = false ∧ c ≠ '.' := by
    rintro c ⟨⟩
    decide
  have scale := readExponent_some exponent follows
  cases places with
  | nil =>
    have read := lawful.read fun c first => (letter c first).1
    have fraction := readFraction_none fun c first => (letter c first).2
    rw [List.singleton_append] at read
    rw [mantissaTail, if_pos rfl, List.nil_append]
    simp [readMagnitude, read, fraction, scale]
  | cons c more =>
    have point : ∀ d ∈ ('.' :: (c :: more ++ 'e' :: (numberStyle.exponentText exponent ++ rest))).head?,
        d.isDigit = false := by
      rintro d ⟨⟩
      rfl
    have read := lawful.read point
    have fraction := readFraction_some (List.cons_ne_nil c more) digits
      fun c first => (letter c first).1
    rw [List.singleton_append, List.cons_append] at read
    rw [List.cons_append] at fraction
    rw [mantissaTail, if_neg (List.cons_ne_nil c more), List.cons_append, List.cons_append]
    simp [readMagnitude, read, fraction, scale]

/-! The layout of a decimal number keeps its value. -/

/-- Significant digits are the digits without zeros at their end. -/
theorem significant_spec {digits : List Char} (given : digits ≠ []) : ∃ zeros,
    digits = NumberStyle.significant digits ++ List.replicate zeros '0' ∧
      NumberStyle.significant digits ≠ [] := by
  have zeros : ∀ c ∈ digits.reverse.takeWhile (· == '0'), c = '0' := fun c listed =>
    eq_of_beq (List.all_eq_true.1 List.all_takeWhile c listed)
  have apart : digits = (digits.reverse.dropWhile (· == '0')).reverse ++
      List.replicate (digits.reverse.takeWhile (· == '0')).length '0' := by
    rw [← List.reverse_replicate, ← List.eq_replicate_of_mem zeros, ← List.reverse_append,
      List.takeWhile_append_dropWhile, List.reverse_reverse]
  unfold NumberStyle.significant
  split
  next none =>
    rw [none, List.nil_append] at apart
    cases count : (digits.reverse.takeWhile (· == '0')).length with
    | zero =>
      rw [count] at apart
      exact absurd apart given
    | succ more =>
      rw [count] at apart
      exact ⟨more, apart, by simp⟩
  next kept => exact ⟨_, apart, kept⟩

/-- Digits that stand for a decimal number, with the power of ten of the first one. -/
structure Laid (d : Decimal) (written : List Char) (exponent : Int) : Prop where
  given : written ≠ []
  digits : Digits written
  value : ∀ negative, Double.ofDecimal negative d =
    Double.ofDecimal negative ⟨natOfDigits written, exponent + 1 - written.length⟩
  zero : written.head? = some '0' → written = ['0'] ∧ exponent = 0

theorem laid_significant {d : Decimal} (zero : d.digits = 0 → d = ⟨0, 0⟩) :
    Laid d (NumberStyle.significant (Decimal.digitChars d.digits))
      (d.exponent + (Decimal.digitChars d.digits).length - 1) := by
  have whole := whole_digitChars d.digits
  obtain ⟨zeros, all, given⟩ := significant_spec whole.nonempty
  generalize NumberStyle.significant (Decimal.digitChars d.digits) = digits at all given ⊢
  have length : (Decimal.digitChars d.digits).length = digits.length + zeros := by
    rw [all, List.length_append, List.length_replicate]
  refine ⟨given, fun c listed => whole.digits c (all ▸ List.mem_append_left _ listed), ?_, ?_⟩
  · intro negative
    have value : d.digits = natOfDigits digits * 10 ^ zeros := by
      rw [← natOfDigits_append_zeros, ← all, natOfDigits_digitChars]
    have shifted := Double.ofDecimal_shift negative (natOfDigits digits) zeros d.exponent
    rw [← value] at shifted
    rw [shifted]
    congr 2
    omega
  · intro first
    have first' : (Decimal.digitChars d.digits).head? = some '0' := by
      rw [all, head?_append given, first]
    -- Only zero is written with a leading zero, and by that digit alone.
    have none : d = ⟨0, 0⟩ :=
      zero (Nat.eq_zero_of_not_pos fun positive => digitChars_head positive first')
    have alone := whole.zero first'
    rw [alone] at length all
    have one : digits.length = 1 := by
      have some' := List.length_pos_iff.2 given
      simp only [List.length_singleton] at length
      omega
    refine ⟨?_, by rw [none] at alone ⊢; rfl⟩
    obtain ⟨c, same⟩ := List.length_eq_one_iff.1 one
    rw [same] at first ⊢
    rw [Option.some.inj first]

/-! The four ways to lay the digits out, in the order in which they are tried. -/

section
variable {d : Decimal} {digits rest : List Char} {exponent : Int}

/-- All digits stand after the point, with zeros before them. -/
theorem Laid.readMagnitude_below (laid : Laid d digits exponent) (below : exponent < 0)
    (negative : Bool) (follows : Follows rest) :
    readMagnitude negative
        ('0' :: '.' :: (List.replicate (-exponent - 1).toNat '0' ++ digits) ++ rest) =
      some (float (Double.ofDecimal negative d), rest) := by
  have places : List.replicate (-exponent - 1).toNat '0' ++ digits ≠ [] := by
    simp [laid.given]
  have value : natOfDigits (['0'] ++ (List.replicate (-exponent - 1).toNat '0' ++ digits)) =
      natOfDigits digits := by
    rw [← natOfDigits_zeros_append (-exponent - 1).toNat digits]
    exact natOfDigits_zeros_append 1 _
  have scale : -((List.replicate (-exponent - 1).toNat '0' ++ digits).length : Int) =
      exponent + 1 - digits.length := by
    rw [List.length_append, List.length_replicate]
    omega
  refine (readMagnitude_positional negative (whole_digitChars 0) places
    ((digits_zeros _).append laid.digits) follows).trans ?_
  rw [show Decimal.digitChars 0 = ['0'] from rfl, value, scale, laid.value negative]

/-- All digits stand before the point, with zeros after them. -/
theorem Laid.readMagnitude_short (laid : Laid d digits exponent)
    (short : digits.length ≤ exponent.toNat + 1) (above : ¬ exponent < 0) (negative : Bool)
    (follows : Follows rest) :
    readMagnitude negative
        (digits ++ List.replicate (exponent.toNat + 1 - digits.length) '0' ++ ['.', '0'] ++ rest) =
      some (float (Double.ofDecimal negative d), rest) := by
  have whole : Whole (digits ++ List.replicate (exponent.toNat + 1 - digits.length) '0') := by
    refine ⟨by simp [laid.given], laid.digits.append (digits_zeros _), fun first => ?_⟩
    rw [head?_append laid.given] at first
    obtain ⟨same, none⟩ := laid.zero first
    rw [same, none]
    rfl
  have scale : -((['0'] : List Char).length : Int) +
      ((exponent.toNat + 1 - digits.length + 1 : Nat) : Int) = exponent + 1 - digits.length := by
    rw [List.length_singleton]
    omega
  have read := readMagnitude_positional negative whole (List.cons_ne_nil '0' [])
    (digits_zeros 1) follows
  rw [List.append_assoc]
  refine read.trans ?_
  rw [List.append_assoc, ← List.replicate_succ', natOfDigits_append_zeros,
    Double.ofDecimal_shift, scale, laid.value negative]

/-- The point stands among the digits. -/
theorem Laid.readMagnitude_long (laid : Laid d digits exponent)
    (long : ¬ digits.length ≤ exponent.toNat + 1) (above : ¬ exponent < 0) (negative : Bool)
    (follows : Follows rest) :
    readMagnitude negative
        (digits.take (exponent.toNat + 1) ++ '.' :: digits.drop (exponent.toNat + 1) ++ rest) =
      some (float (Double.ofDecimal negative d), rest) := by
  have first : (digits.take (exponent.toNat + 1)).head? = digits.head? := by
    cases digits with
    | nil => rfl
    | cons c more => rfl
  have whole : Whole (digits.take (exponent.toNat + 1)) := by
    refine ⟨?_, fun c listed => laid.digits c (List.mem_of_mem_take listed), fun lead => ?_⟩
    · simp [laid.given]
    · obtain ⟨same, none⟩ := laid.zero (first ▸ lead)
      rw [same, none]
      rfl
  have places : digits.drop (exponent.toNat + 1) ≠ [] := by
    rw [ne_eq, List.drop_eq_nil_iff]
    exact long
  have scale : -((digits.drop (exponent.toNat + 1)).length : Int) =
      exponent + 1 - digits.length := by
    rw [List.length_drop]
    omega
  have read := readMagnitude_positional negative whole places
    (fun c listed => laid.digits c (List.mem_of_mem_drop listed)) follows
  rw [List.append_assoc]
  refine read.trans ?_
  rw [List.take_append_drop, scale, laid.value negative]

/-- The point stands after the first digit, and an exponent follows. -/
theorem Laid.readMagnitude_exponent {lead : Char} {more : List Char}
    (laid : Laid d (lead :: more) exponent) (negative : Bool) (follows : Follows rest) :
    readMagnitude negative
        (lead :: (mantissaTail more ++ 'e' :: (numberStyle.exponentText exponent ++ rest))) =
      some (float (Double.ofDecimal negative d), rest) := by
  have scale : exponent - (more.length : Int) = exponent + 1 - ((lead :: more).length : Int) := by
    rw [List.length_cons]
    omega
  rw [readMagnitude_scientific negative (laid.digits lead List.mem_cons_self)
    (fun c listed => laid.digits c (List.mem_cons_of_mem _ listed)) exponent follows, scale,
    laid.value negative]

end

/-- A decimal number as it is written: all its digits, and the exponent of the first one. -/
theorem readMagnitude_decimalText (negative : Bool) {d : Decimal} {rest : List Char}
    (zero : d.digits = 0 → d = ⟨0, 0⟩) (follows : Follows rest) :
    readMagnitude negative (numberStyle.decimalText d ++ rest) =
      some (float (Double.ofDecimal negative d), rest) := by
  have laid := laid_significant zero
  unfold NumberStyle.decimalText
  dsimp only
  generalize NumberStyle.significant (Decimal.digitChars d.digits) = digits at laid ⊢
  generalize d.exponent + (Decimal.digitChars d.digits).length - 1 = exponent at laid ⊢
  split
  next positional =>
    split
    next below => exact laid.readMagnitude_below below negative follows
    next above =>
      split
      next short => exact laid.readMagnitude_short short above negative follows
      next long => exact laid.readMagnitude_long long above negative follows
  next scientific =>
    cases digits with
    | nil => exact absurd rfl laid.given
    | cons lead more =>
      have read := laid.readMagnitude_exponent negative follows
      rw [List.append_assoc]
      -- One digit alone is written without a point.
      cases more <;> exact read

/-! Numbers start with a digit, or with a sign and a digit; the words do not. -/

theorem digit_of_readMagnitude {negative : Bool} {cs : List Char} {found : Json × List Char}
    (read : readMagnitude negative cs = some found) : ∃ c rest, cs = c :: rest ∧ c.isDigit = true := by
  obtain ⟨_, whole, _⟩ := Option.bind_eq_some_iff.1 read
  unfold readWhole at whole
  split at whole
  · exact ⟨'0', _, rfl, rfl⟩
  · split at whole
    next digit => exact ⟨_, _, rfl, digit⟩
    · exact nomatch whole
  · exact nomatch whole

theorem readScalar_positive {cs : List Char} {found : Json × List Char}
    (read : readMagnitude false cs = some found) : readScalar cs = .ok found := by
  obtain ⟨c, rest, rfl, digit⟩ := digit_of_readMagnitude read
  unfold readScalar
  split <;> simp_all

theorem readScalar_negative {cs : List Char} {found : Json × List Char}
    (read : readMagnitude true cs = some found) : readScalar ('-' :: cs) = .ok found := by
  obtain ⟨c, rest, rfl, digit⟩ := digit_of_readMagnitude read
  unfold readScalar
  split <;> simp_all

theorem readScalar_intText (n : Int) {rest : List Char} (follows : Follows rest) :
    readScalar (intText n ++ rest) = .ok (int n, rest) := by
  have read := fun negative => readMagnitude_int negative (whole_digitChars n.natAbs) follows
  simp only [natOfDigits_digitChars] at read
  unfold intText
  split
  next below =>
    have size : -(n.natAbs : Int) = n := by omega
    rw [List.cons_append, readScalar_negative (read true), if_pos rfl, size]
  next above =>
    have size : (n.natAbs : Int) = n := by omega
    rw [readScalar_positive (read false), if_neg Bool.false_ne_true, size]

theorem readScalar_doubleText (x : Double) {rest : List Char} (follows : Follows rest) :
    readScalar (numberStyle.text x ++ rest) = .ok (float x, rest) := by
  cases x with
  | nan => rfl
  | infinite negative => cases negative <;> rfl
  | finite negative rank =>
    obtain ⟨back, zero⟩ := Double.ofDecimal_shortest rank
    have read := readMagnitude_decimalText negative zero follows
    rw [Double.ofDecimal_sign back] at read
    unfold NumberStyle.text
    cases negative with
    | false => exact readScalar_positive read
    | true => exact readScalar_negative read

end PartialUpdate.Json
