import PartialUpdate.Number.Double

/-!
The range of doubles. Just the integers below the middle between the greatest double and the power
of two above it have a double next to them.
-/

set_option autoImplicit false

namespace PartialUpdate

-- Powers mean the same whatever else is imported.
attribute [local instance (2000)] instPowNat

namespace Double

/-- The least magnitude that is rounded past the greatest double. It is halfway to the power of two
above, and as the greatest double is odd, the tie goes up. -/
def beyondRange : Nat := 2 ^ (1024 : Nat) - 2 ^ (970 : Nat)

section
variable {a b low : Nat}

theorem div_le_roundHalfEven (a b : Nat) : a / b ≤ roundHalfEven a b := by
  unfold roundHalfEven
  dsimp only
  split <;> omega

theorem roundHalfEven_le (a b : Nat) : roundHalfEven a b ≤ a / b + 1 := by
  unfold roundHalfEven
  dsimp only
  split <;> omega

/-- An odd number is exceeded from the middle on. -/
theorem roundHalfEven_le_iff (positive : 0 < b) (odd : low % 2 = 1) :
    roundHalfEven a b ≤ low ↔ 2 * a < (2 * low + 1) * b := by
  have whole : b * (a / b) + a % b = a := Nat.div_add_mod a b
  have rest : a % b < b := Nat.mod_lt a positive
  have spread : (2 * low + 1) * b = 2 * (b * low) + b := by
    rw [Nat.add_mul, Nat.one_mul, Nat.mul_assoc, Nat.mul_comm low]
  rcases Nat.lt_trichotomy (a / b) low with below | equal | above
  · have step : b * (a / b + 1) ≤ b * low := Nat.mul_le_mul_left b below
    have small := roundHalfEven_le a b
    rw [Nat.mul_add, Nat.mul_one] at step
    exact iff_of_true (by omega) (by omega)
  · rw [equal] at whole
    unfold roundHalfEven
    dsimp only
    rw [equal]
    split <;> omega
  · have step : b * (low + 1) ≤ b * (a / b) := Nat.mul_le_mul_left b above
    have large := div_le_roundHalfEven a b
    rw [Nat.mul_add, Nat.mul_one] at step
    exact iff_of_false (by omega) (by omega)

theorem nearestRank_one (a : Nat) : nearestRank a 1 =
    (a.log2 - 52) * fractions + roundHalfEven a (2 ^ (a.log2 - 52)) := by
  simp only [nearestRank, Nat.div_one, Nat.one_mul]

/-- Ranks are counted in blocks of one exponent. A magnitude keeps below the end of a block just if
it is below the middle between the last magnitude of the block and the first one after it. -/
theorem nearestRank_lt_iff (a : Nat) {exponent : Nat} (normal : 0 < exponent) :
    nearestRank a 1 < (exponent + 2) * fractions ↔
      2 * a < (2 * (2 ^ (53 : Nat) - 1) + 1) * 2 ^ exponent := by
  have positive : 0 < 2 ^ exponent := Nat.two_pow_pos exponent
  rw [nearestRank_one]
  rcases Nat.lt_trichotomy a.log2 (exponent + 52) with below | equal | above
  -- A smaller exponent: rounding leads no further than to the block after its own.
  · have least : a < 2 ^ (a.log2 + 1) := Nat.lt_log2_self
    have small : a < 2 ^ exponent * 2 ^ (52 : Nat) := by
      rw [← Nat.pow_add]
      exact Nat.lt_of_lt_of_le least (Nat.pow_le_pow_right (by decide) below)
    have quotient : a / 2 ^ (a.log2 - 52) < 2 ^ (53 : Nat) := by
      rw [Nat.div_lt_iff_lt_mul (Nat.two_pow_pos _), ← Nat.pow_add]
      exact Nat.lt_of_lt_of_le least (Nat.pow_le_pow_right (by decide) (by omega))
    have rounded := roundHalfEven_le a (2 ^ (a.log2 - 52))
    unfold fractions
    exact iff_of_true (by omega) (by omega)
  -- The exponent of the block: the last quotient is odd, so a tie leaves the block.
  · have odd : (2 ^ (53 : Nat) - 1) % 2 = 1 := by decide
    have within := @roundHalfEven_le_iff a _ _ positive odd
    rw [← within, equal, Nat.add_sub_cancel]
    unfold fractions
    omega
  -- A greater exponent: the magnitude is past the block before it is rounded.
  · have large : 2 ^ a.log2 ≤ a := by
      refine Nat.log2_self_le ?_
      rintro rfl
      exact absurd above (Nat.not_lt_zero _)
    have past : 2 ^ exponent * 2 ^ (53 : Nat) ≤ a := by
      rw [← Nat.pow_add]
      exact Nat.le_trans (Nat.pow_le_pow_right (by decide) above) large
    have quotient : 2 ^ (52 : Nat) ≤ a / 2 ^ (a.log2 - 52) := by
      rw [Nat.le_div_iff_mul_le (Nat.two_pow_pos _), ← Nat.pow_add]
      exact Nat.le_trans (Nat.pow_le_pow_right (by decide) (by omega)) large
    have rounded := div_le_roundHalfEven a (2 ^ (a.log2 - 52))
    unfold fractions
    exact iff_of_false (by omega) (by omega)

end

/-- A magnitude has a finite rank up to the middle above the greatest one. -/
theorem nearestRank_finite_iff (magnitude : Nat) :
    nearestRank (magnitude * unitsInOne) 1 < finiteCount ↔ magnitude < beyondRange := by
  have blocks : finiteCount = (2045 + 2) * fractions := rfl
  have middle : (2 * (2 ^ (53 : Nat) - 1) + 1) * 2 ^ (2045 : Nat) =
      2 * (beyondRange * unitsInOne) := by decide +kernel
  rw [blocks, nearestRank_lt_iff _ (by decide), middle, Nat.mul_lt_mul_left Nat.two_pos]
  exact Nat.mul_lt_mul_right unitsInOne_pos

theorem finite?_nearest (negative : Bool) (magnitude : Nat) :
    (nearest negative magnitude 1).finite? = none ↔ beyondRange ≤ magnitude := by
  rw [← Nat.not_lt, ← nearestRank_finite_iff]
  unfold nearest ofRank
  by_cases within : nearestRank (magnitude * unitsInOne) 1 < finiteCount
  · rw [dif_pos within]
    exact iff_of_false nofun (not_not_intro within)
  · rw [dif_neg within]
    exact iff_of_true rfl within

/-- An integer has no double next to it just if it is beyond their range. -/
theorem ofInt?_eq_none_iff (n : Int) : ofInt? n = none ↔ beyondRange ≤ n.natAbs := by
  cases n with
  | ofNat magnitude =>
    rw [ofInt?, finite?_nearest]
    rfl
  | negSucc magnitude => rw [ofInt?, finite?_nearest, Int.natAbs_negSucc]

end Double
end PartialUpdate
