/-!
Double-precision numbers as exact data. A finite double is its sign and its rank: the
nonnegative finite doubles in increasing order are numbered from zero, so the rank of a
double is its magnitude bits. Magnitudes are counted in units of the least positive double,
2^-1074, which makes every finite magnitude a natural number.

Rounding takes the double nearest to an exact quotient; a tie goes to the even rank.
Main statement: a double is the rounding of its own magnitude.
-/

set_option autoImplicit false

namespace PartialUpdate

-- Powers mean the same whatever else is imported.
attribute [local instance (2000)] instPowNat

/-- Number of ranks that share one exponent. -/
def Double.fractions : Nat := 2 ^ (52 : Nat)

/-- Number of nonnegative finite doubles. -/
def Double.finiteCount : Nat := 2047 * 2 ^ (52 : Nat)

/-- The least positive double is two to the power of minus this. -/
def Double.leastExponent : Nat := 1074

/-- Number of least positive doubles in one. -/
def Double.unitsInOne : Nat := 2 ^ leastExponent

/-- An IEEE double; all not-a-number encodings are one value. -/
inductive Double where
  | finite (negative : Bool) (rank : Fin Double.finiteCount)
  | infinite (negative : Bool)
  | nan
  deriving DecidableEq

namespace Double

/-- How often the spacing of doubles has doubled below this rank. -/
def shift (rank : Nat) : Nat := rank / fractions - 1

/-- Magnitude of a rank in units of the least positive double. -/
def units (rank : Nat) : Nat := (rank - shift rank * fractions) * 2 ^ shift rank

def roundHalfEven (a b : Nat) : Nat :=
  let low := a / b
  let rest := a % b
  if b < 2 * rest ∨ (2 * rest = b ∧ low % 2 = 1) then low + 1 else low

/-- Rank nearest to `a / b` units; the ranks past the finite ones stand for infinity. -/
def nearestRank (a b : Nat) : Nat :=
  let spacing := (a / b).log2 - 52
  spacing * fractions + roundHalfEven a (b * 2 ^ spacing)

def ofRank (negative : Bool) (rank : Nat) : Double :=
  if bound : rank < finiteCount then finite negative ⟨rank, bound⟩ else infinite negative

def nearest (negative : Bool) (a b : Nat) : Double :=
  ofRank negative (nearestRank (a * unitsInOne) b)

def zero : Double := ofRank false 0

def finite? : Double → Option Double
  | finite negative rank => some (finite negative rank)
  | _ => none

def ofInt? : Int → Option Double
  | .ofNat n => (nearest false n 1).finite?
  | .negSucc n => (nearest true (n + 1) 1).finite?

def isZero : Double → Bool
  | finite _ rank => rank.val == 0
  | _ => false

def truncate? : Double → Option Int
  | finite negative rank =>
    let whole : Int := Int.ofNat (units rank.val / unitsInOne)
    some (if negative then -whole else whole)
  | _ => none

def isWhole : Double → Bool
  | finite _ rank => units rank.val % unitsInOne == 0
  | _ => false

/-- Equality of numbers: the two zeros are equal, and a not-a-number equals only itself. -/
def numericEq (x y : Double) : Bool :=
  x == y || (x.isZero && y.isZero)

def eqInt (x : Double) (n : Int) : Bool :=
  x.isWhole && x.truncate? == some n

@[simp] theorem roundHalfEven_mul (n b : Nat) (positive : 0 < b) :
    roundHalfEven (n * b) b = n := by
  simp [roundHalfEven, Nat.mul_div_cancel _ positive, Nat.mul_mod_left, Nat.ne_of_lt positive]

theorem rank_eq (rank : Nat) :
    shift rank * fractions + (rank - shift rank * fractions) = rank := by
  have bound : shift rank * fractions ≤ rank := by
    have low := Nat.div_mul_le_self rank fractions
    have step : shift rank ≤ rank / fractions := Nat.sub_le _ _
    exact Nat.le_trans (Nat.mul_le_mul_right _ step) low
  omega

/-- The spacing at a magnitude is the spacing of its rank. -/
theorem log2_units (rank : Nat) : (units rank).log2 - 52 = shift rank := by
  unfold units
  by_cases low : rank < fractions
  · have flat : shift rank = 0 := by
      rw [shift, Nat.div_eq_of_lt low]
    rw [flat, Nat.zero_mul, Nat.sub_zero, Nat.pow_zero, Nat.mul_one]
    by_cases zero : rank = 0
    · subst zero; decide
    · have small : rank.log2 < 52 := (Nat.log2_lt zero).2 low
      omega
  · have up : 1 ≤ rank / fractions := (Nat.one_le_div_iff (by decide)).2 (by omega)
    have whole := Nat.div_add_mod rank fractions
    have rest := Nat.mod_lt rank (show 0 < fractions by decide)
    have significand : rank - shift rank * fractions = fractions + rank % fractions := by
      have eq : rank / fractions = shift rank + 1 := by unfold shift; omega
      rw [eq, Nat.mul_add, Nat.mul_comm] at whole
      omega
    have size : ((fractions + rank % fractions) * 2 ^ shift rank).log2 = 52 + shift rank := by
      have power : 0 < 2 ^ shift rank := Nat.two_pow_pos _
      rw [Nat.log2_eq_iff (Nat.ne_of_gt (Nat.mul_pos (by unfold fractions; omega) power))]
      constructor
      · rw [Nat.pow_add]
        exact Nat.mul_le_mul_right _ (Nat.le_add_right _ _)
      · rw [show 52 + shift rank + 1 = 53 + shift rank by omega, Nat.pow_add]
        exact Nat.mul_lt_mul_of_pos_right (by unfold fractions at *; omega) power
    rw [significand, size]
    omega

theorem unitsInOne_pos : 0 < unitsInOne := Nat.two_pow_pos leastExponent

/-- Rounding the magnitude of a rank gives the rank back. -/
theorem nearestRank_units (rank : Nat) :
    nearestRank (units rank * unitsInOne) unitsInOne = rank := by
  have positive : 0 < unitsInOne := unitsInOne_pos
  unfold nearestRank
  simp only [Nat.mul_div_cancel _ positive, log2_units]
  have regroup : units rank * unitsInOne =
      (rank - shift rank * fractions) * (unitsInOne * 2 ^ shift rank) := by
    unfold units
    rw [Nat.mul_assoc, Nat.mul_comm (2 ^ shift rank)]
  rw [regroup, roundHalfEven_mul _ _ (Nat.mul_pos positive (Nat.two_pow_pos _))]
  exact rank_eq rank

end Double
end PartialUpdate
