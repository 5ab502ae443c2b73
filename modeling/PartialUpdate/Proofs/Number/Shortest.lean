import PartialUpdate.Number.Decimal

/-!
Shortest decimal numbers read back. The double of a decimal number depends on the number alone, not
on how it is split into digits and an exponent.
-/

set_option autoImplicit false

namespace PartialUpdate

-- Powers mean the same whatever else is imported.
attribute [local instance (2000)] instPowNat

namespace Double

theorem roundHalfEven_scale (a b c : Nat) (positive : 0 < c) :
    roundHalfEven (a * c) (b * c) = roundHalfEven a b := by
  have double : 2 * (a % b * c) = 2 * (a % b) * c := (Nat.mul_assoc _ _ _).symm
  unfold roundHalfEven
  simp only [Nat.mul_div_mul_right a b positive, Nat.mul_mod_mul_right, double,
    Nat.mul_lt_mul_right positive, Nat.mul_left_inj (Nat.ne_of_gt positive)]

theorem nearestRank_scale (a b c : Nat) (positive : 0 < c) :
    nearestRank (a * c) (b * c) = nearestRank a b := by
  have regroup : ∀ spacing, b * c * 2 ^ spacing = b * 2 ^ spacing * c := fun spacing =>
    Nat.mul_right_comm b c (2 ^ spacing)
  unfold nearestRank
  simp only [Nat.mul_div_mul_right a b positive, regroup, roundHalfEven_scale _ _ _ positive]

/-- Equal quotients have one nearest rank. -/
theorem nearestRank_congr {a b a' b' : Nat} (positive : 0 < b) (positive' : 0 < b')
    (same : a * b' = a' * b) : nearestRank a b = nearestRank a' b' := by
  rw [← nearestRank_scale a b b' positive', ← nearestRank_scale a' b' b positive, same,
    Nat.mul_comm b b']

theorem nearest_congr (negative : Bool) {a b a' b' : Nat} (positive : 0 < b) (positive' : 0 < b')
    (same : a * b' = a' * b) : nearest negative a b = nearest negative a' b' := by
  have scaled : a * unitsInOne * b' = a' * unitsInOne * b := by
    rw [Nat.mul_right_comm, same, Nat.mul_right_comm]
  rw [nearest, nearest, nearestRank_congr positive positive' scaled]

end Double

namespace Decimal

theorem digitChars_shift {digits : Nat} (positive : 0 < digits) (places : Nat) :
    digitChars (digits * 10 ^ places) = digitChars digits ++ List.replicate places '0' := by
  induction places with
  | zero => simp
  | succ places ih =>
    have grown : 0 < digits * 10 ^ places := Nat.mul_pos positive (Nat.pow_pos (by decide))
    have step : digits * 10 ^ (places + 1) = 10 * (digits * 10 ^ places) + 0 := by
      rw [Nat.pow_succ, Nat.add_zero, ← Nat.mul_assoc, Nat.mul_comm]
    rw [digitChars, step, ← Nat.toDigits_append_toDigits (by decide) grown (by decide), ← digitChars,
      ih, List.replicate_succ', List.append_assoc]
    rfl

theorem magnitude_shift {digits : Nat} (positive : 0 < digits) (places : Nat) (exponent : Int) :
    magnitude ⟨digits * 10 ^ places, exponent⟩ = magnitude ⟨digits, exponent + places⟩ := by
  simp only [magnitude, digitChars_shift positive, List.length_append, List.length_replicate]
  omega

end Decimal

namespace Double

/-- Powers of ten may stand in the digits or in the exponent. -/
theorem ofDecimal_shift (negative : Bool) (digits places : Nat) (exponent : Int) :
    ofDecimal negative ⟨digits * 10 ^ places, exponent⟩ =
      ofDecimal negative ⟨digits, exponent + places⟩ := by
  by_cases zero : digits = 0
  · simp [ofDecimal, zero]
  · have positive : 0 < digits := Nat.pos_of_ne_zero zero
    have grown : digits * 10 ^ places ≠ 0 :=
      Nat.ne_of_gt (Nat.mul_pos positive (Nat.pow_pos (by decide)))
    have same : nearest negative (Decimal.numerator ⟨digits * 10 ^ places, exponent⟩)
        (Decimal.denominator ⟨digits * 10 ^ places, exponent⟩) =
        nearest negative (Decimal.numerator ⟨digits, exponent + places⟩)
          (Decimal.denominator ⟨digits, exponent + places⟩) := by
      -- Cross-multiplied, both sides have the same power of ten.
      refine nearest_congr negative (Nat.pow_pos (by decide)) (Nat.pow_pos (by decide)) ?_
      have powers : places + exponent.toNat + (-(exponent + places)).toNat =
          (exponent + places).toNat + (-exponent).toNat := by omega
      simp only [Decimal.numerator, Decimal.denominator, Nat.mul_assoc, ← Nat.pow_add]
      rw [powers]
    simp only [ofDecimal, zero, grown, false_or, Decimal.magnitude_shift positive, same]

/-- A sign in front of a decimal number is the sign of its double. -/
theorem ofDecimal_sign {d : Decimal} {rank : Fin finiteCount}
    (read : ofDecimal false d = finite false rank) (negative : Bool) :
    ofDecimal negative d = finite negative rank := by
  have signed : ∀ r, ofRank false r = finite false rank → ofRank negative r = finite negative rank := by
    intro r same
    unfold ofRank at same ⊢
    split at same
    next bound => cases same; rw [dif_pos bound]
    next => exact nomatch same
  unfold ofDecimal at read ⊢
  split at read
  next tiny => rw [if_pos tiny]; exact signed 0 read
  next large =>
    rw [if_neg large]
    split at read
    next => exact nomatch read
    next normal => rw [if_neg normal]; exact signed _ read

theorem units_pos {rank : Nat} (positive : 0 < rank) : 0 < units rank := by
  refine Nat.pos_of_ne_zero fun none => ?_
  have back := nearestRank_units rank
  rw [none, Nat.zero_mul] at back
  have zero : nearestRank 0 unitsInOne = 0 := by simp [nearestRank, roundHalfEven]
  omega

theorem shift_le {rank : Nat} (bound : rank < finiteCount) : shift rank ≤ 2045 := by
  have quotient : rank / fractions < 2047 := Nat.div_lt_of_lt_mul bound
  unfold shift
  omega

theorem units_lt {rank limit : Nat} (spacing : shift rank ≤ limit) :
    units rank < 2 ^ (53 + limit) := by
  have significand : rank - shift rank * fractions < 2 ^ (53 : Nat) := by
    have below : rank < (rank / fractions + 1) * fractions :=
      Nat.lt_mul_of_div_lt (Nat.lt_succ_self _) (by decide)
    have above : (rank / fractions + 1) * fractions ≤ (shift rank + 2) * fractions :=
      Nat.mul_le_mul_right _ (by unfold shift; omega)
    have double : (shift rank + 2) * fractions = shift rank * fractions + 2 ^ (53 : Nat) := by
      rw [Nat.add_mul]
      rfl
    omega
  calc units rank < 2 ^ (53 : Nat) * 2 ^ shift rank :=
        Nat.mul_lt_mul_of_pos_right significand (Nat.two_pow_pos _)
    _ = 2 ^ (53 + shift rank) := (Nat.pow_add 2 53 (shift rank)).symm
    _ ≤ 2 ^ (53 + limit) := Nat.pow_le_pow_right (by decide) (Nat.add_le_add_left spacing 53)

/-- All digits of a rank are within the bounds between which decimal numbers are rounded. -/
theorem magnitude_exactDecimal {rank : Nat} (positive : 0 < rank) (bound : rank < finiteCount) :
    underflowMagnitude < (exactDecimal rank).magnitude ∧
      (exactDecimal rank).magnitude < overflowMagnitude := by
  -- A number has at most as many digits as a power of ten above it has zeros.
  have low : ¬ (Decimal.digitChars (units rank * 5 ^ leastExponent)).length ≤ 750 := by
    rw [Decimal.digitChars, Nat.length_toDigits_le_iff (by decide) (by decide), Nat.not_lt]
    have least : 10 ^ (750 : Nat) ≤ 5 ^ leastExponent := by decide +kernel
    exact Nat.le_trans least (Nat.le_mul_of_pos_left _ (units_pos positive))
  have high : (Decimal.digitChars (units rank * 5 ^ leastExponent)).length ≤ 1384 := by
    rw [Decimal.digitChars, Nat.length_toDigits_le_iff (by decide) (by decide)]
    have greatest : 2 ^ (53 + 2045 : Nat) * 5 ^ leastExponent < 10 ^ (1384 : Nat) := by decide +kernel
    exact Nat.lt_trans
      (Nat.mul_lt_mul_of_pos_right (units_lt (shift_le bound)) (Nat.pow_pos (by decide))) greatest
  have exponent : (leastExponent : Int) = 1074 := rfl
  simp only [Decimal.magnitude, exactDecimal, underflowMagnitude, overflowMagnitude, exponent]
  omega

theorem ofDecimal_exactDecimal (rank : Fin finiteCount) (positive : 0 < rank.val) :
    ofDecimal false (exactDecimal rank.val) = finite false rank := by
  obtain ⟨low, high⟩ := magnitude_exactDecimal positive rank.isLt
  have digits : (exactDecimal rank.val).digits ≠ 0 :=
    Nat.ne_of_gt (Nat.mul_pos (units_pos positive) (Nat.pow_pos (by decide)))
  have value : nearestRank ((exactDecimal rank.val).numerator * unitsInOne)
      (exactDecimal rank.val).denominator = rank.val := by
    have tens : ∀ places : Nat, 10 ^ places = 5 ^ places * 2 ^ places := Nat.mul_pow 5 2
    have numerator : (exactDecimal rank.val).numerator = units rank.val * 5 ^ leastExponent := by
      simp [Decimal.numerator, exactDecimal]
    have denominator : (exactDecimal rank.val).denominator = 5 ^ leastExponent * unitsInOne := by
      rw [unitsInOne, ← tens]
      simp [Decimal.denominator, exactDecimal]
    rw [numerator, denominator, Nat.mul_assoc, Nat.mul_comm (5 ^ leastExponent), ← Nat.mul_assoc,
      nearestRank_scale _ _ _ (Nat.pow_pos (by decide))]
    exact nearestRank_units rank.val
  rw [ofDecimal, if_neg (by simp only [digits, false_or]; omega), if_neg (by omega), nearest, value,
    ofRank, dif_pos rank.isLt]

theorem onGrid?_readsAs {rank : Nat} {exponent : Int} {d : Decimal}
    (found : onGrid? rank exponent = some d) : readsAs rank d = true :=
  List.find?_some found

/-- What is written of a rank reads as the rank, and only of zero are all digits zero. -/
theorem ofDecimal_shortest (rank : Fin finiteCount) :
    ofDecimal false (shortest rank.val) = finite false rank ∧
      ((shortest rank.val).digits = 0 → shortest rank.val = ⟨0, 0⟩) := by
  have whole : ofRank false rank.val = finite false rank := by
    rw [ofRank, dif_pos rank.isLt]
  by_cases zero : rank.val = 0
  · have written : shortest rank.val = ⟨0, 0⟩ := by rw [shortest, if_pos zero]
    refine ⟨?_, fun _ => written⟩
    rw [written, ofDecimal, if_pos (.inl rfl), ← whole, zero]
  · have positive := Nat.pos_of_ne_zero zero
    have reads : ofDecimal false (shortest rank.val) = finite false rank := by
      rw [shortest, if_neg zero]
      dsimp only
      cases found : (List.range 17).findSome? fun (less : Nat) =>
          onGrid? rank.val (decimalExponent (units rank.val) unitsInOne - less) with
      | none => exact ofDecimal_exactDecimal rank positive
      -- A decimal number on a grid is taken only if it reads as the rank.
      | some d =>
        obtain ⟨less, _, onGrid⟩ := List.exists_of_findSome?_eq_some found
        rw [Option.getD_some, ← whole]
        exact eq_of_beq (onGrid?_readsAs onGrid)
    refine ⟨reads, fun none => ?_⟩
    -- A decimal number without digits is zero.
    rw [ofDecimal, if_pos (.inl none), ofRank, dif_pos (by decide)] at reads
    exact absurd (congrArg Fin.val (finite.inj reads).2).symm zero

end Double
end PartialUpdate
