import Mathlib.Algebra.Order.Field.Power
import Mathlib.Algebra.Order.Floor.Semifield
import Mathlib.Data.Int.Log
import Mathlib.Data.Rat.Floor
import Mathlib.Tactic.FieldSimp
import Mathlib.Tactic.Positivity
import Overpass.Numeric.Rounding

/-!
# Rounding fractions

Rounding works on a numerator and a denominator, with powers of two moved to whichever side keeps
both of them natural numbers. Here it is related to the fraction itself: the order of a fraction is
its integer logarithm, the rounded number depends on the value of the fraction only, and a finite
number is the rounding of its own value.

## Main Definitions

* `Binary64.absoluteValue`: the absolute value of a finite number

## Main Statements

* `binaryOrder_eq_log`: the order of a fraction is its logarithm
* `Binary64.ofRatio_congr`: fractions of the same value are rounded to the same number
* `Binary64.ofRatio_of_absoluteValue`: a fraction that is a number's value is rounded to the number
-/

namespace Overpass

/-! ### Quotients -/

theorem roundHalfEven_mul_left {k : ℕ} (hk : 0 < k) (num den : ℕ) :
    roundHalfEven (k * num) (k * den) = roundHalfEven num den := by
  have hbelow : 2 * (k * (num % den)) < k * den ↔ 2 * (num % den) < den := by
    rw [Nat.mul_left_comm]
    exact Nat.mul_lt_mul_left hk
  have habove : k * den < 2 * (k * (num % den)) ↔ den < 2 * (num % den) := by
    rw [Nat.mul_left_comm]
    exact Nat.mul_lt_mul_left hk
  simp only [roundHalfEven, Nat.mul_div_mul_left _ _ hk, Nat.mul_mod_mul_left, hbelow, habove]

/-- Fractions of the same value are rounded to the same integer. So rounding can be spoken of as
rounding a rational number, although it is computed with two natural numbers. -/
theorem roundHalfEven_congr {num den num' den' : ℕ} (hden : 0 < den) (hden' : 0 < den')
    (h : (num : ℚ) / den = num' / den') : roundHalfEven num den = roundHalfEven num' den' := by
  have hproducts : num * den' = num' * den := by
    rw [div_eq_div_iff (by exact_mod_cast hden.ne') (by exact_mod_cast hden'.ne')] at h
    exact_mod_cast h
  rw [← roundHalfEven_mul_left hden' num den, ← roundHalfEven_mul_left hden num' den',
    Nat.mul_comm den' num, hproducts, Nat.mul_comm num' den, Nat.mul_comm den' den]

theorem roundHalfEven_one (n : ℕ) : roundHalfEven n 1 = n := by
  simp [roundHalfEven, Nat.mod_one]

/-! ### Powers with integer exponents -/

/-- A power with an integer exponent is a quotient of two powers, one of which is one. -/
theorem zpow_eq_div {b : ℕ} (hb : 0 < b) (k : ℤ) :
    (b : ℚ) ^ k = (Nat.pow b k.toNat : ℕ) / (Nat.pow b (-k).toNat : ℕ) := by
  have hb' : (b : ℚ) ≠ 0 := by exact_mod_cast hb.ne'
  have hk : k = (k.toNat : ℤ) - ((-k).toNat : ℤ) := by omega
  conv_lhs => rw [hk]
  rw [zpow_sub₀ hb', zpow_natCast, zpow_natCast, Nat.pow_eq, Nat.pow_eq, Nat.cast_pow,
    Nat.cast_pow]

/-- A fraction is scaled by a power by multiplying its numerator or its denominator. -/
theorem mul_pow_div_mul_pow {b : ℕ} (hb : 0 < b) (num den : ℕ) (k : ℤ) :
    ((num * Nat.pow b k.toNat : ℕ) : ℚ) / (den * Nat.pow b (-k).toNat : ℕ) =
      num / den * (b : ℚ) ^ k := by
  rw [zpow_eq_div hb, Nat.cast_mul, Nat.cast_mul, mul_div_mul_comm]

/-- Comparing a power with a fraction is comparing products of natural numbers. -/
theorem zpow_le_div_iff {b num den : ℕ} (hb : 0 < b) (hden : 0 < den) (k : ℤ) :
    (b : ℚ) ^ k ≤ (num : ℚ) / den ↔
      den * Nat.pow b k.toNat ≤ num * Nat.pow b (-k).toNat := by
  have hpow : (0 : ℚ) < (Nat.pow b (-k).toNat : ℕ) := by
    exact_mod_cast Nat.pow_pos hb
  rw [zpow_eq_div hb, div_le_div_iff₀ hpow (by exact_mod_cast hden), mul_comm (Nat.cast _)]
  exact_mod_cast Iff.rfl

/-! ### The order of a fraction -/

/-- A logarithm is known from the powers around a number. This is how the estimate from the bit
lengths becomes exact. -/
theorem log_eq_of_zpow_le {b : ℕ} (hb : 1 < b) {value : ℚ} (hvalue : 0 < value) {k : ℤ}
    (hle : (b : ℚ) ^ k ≤ value) (hlt : value < (b : ℚ) ^ (k + 1)) : Int.log b value = k := by
  have hbelow := (Int.zpow_le_iff_le_log hb hvalue).mp hle
  have habove := (Int.lt_zpow_iff_log_lt hb hvalue).mp hlt
  omega

/-- The logarithm of a natural number that is scaled by a power of the base. -/
theorem log_natCast_mul_zpow {b : ℕ} (hb : 1 < b) {n : ℕ} (hn : 0 < n) (k : ℤ) :
    Int.log b ((n : ℚ) * (b : ℚ) ^ k) = Nat.log b n + k := by
  have hbase : (0 : ℚ) < b := by exact_mod_cast hb.le
  have hpow : (0 : ℚ) < (b : ℚ) ^ k := zpow_pos hbase _
  apply log_eq_of_zpow_le hb (mul_pos (by exact_mod_cast hn) hpow)
  · rw [zpow_add₀ hbase.ne', zpow_natCast]
    gcongr
    exact_mod_cast Nat.pow_log_le_self b hn.ne'
  · rw [add_right_comm, zpow_add₀ hbase.ne']
    gcongr
    exact_mod_cast Nat.lt_pow_succ_log_self hb n

/-- The bit lengths of numerator and denominator leave two orders for a fraction. -/
theorem zpow_log2_sub_log2 {num den : ℕ} (hnum : 0 < num) (hden : 0 < den) :
    (2 : ℚ) ^ ((num.log2 : ℤ) - den.log2 - 1) < num / den ∧
      (num : ℚ) / den < (2 : ℚ) ^ ((num.log2 : ℤ) - den.log2 + 1) := by
  have hden' : (0 : ℚ) < den := by exact_mod_cast hden
  have hnumlow : (2 : ℚ) ^ num.log2 ≤ num := by exact_mod_cast Nat.log2_self_le hnum.ne'
  have hnumhigh : (num : ℚ) < 2 ^ (num.log2 + 1) := by exact_mod_cast Nat.lt_log2_self
  have hdenlow : (2 : ℚ) ^ den.log2 ≤ den := by exact_mod_cast Nat.log2_self_le hden.ne'
  have hdenhigh : (den : ℚ) < 2 ^ (den.log2 + 1) := by exact_mod_cast Nat.lt_log2_self
  have hlow : (2 : ℚ) ^ ((num.log2 : ℤ) - den.log2 - 1) = 2 ^ num.log2 / 2 ^ (den.log2 + 1) := by
    rw [sub_sub, zpow_sub₀ two_ne_zero]
    norm_cast
  have hhigh : (2 : ℚ) ^ ((num.log2 : ℤ) - den.log2 + 1) = 2 ^ (num.log2 + 1) / 2 ^ den.log2 := by
    rw [sub_add_eq_add_sub, zpow_sub₀ two_ne_zero]
    norm_cast
  rw [hlow, hhigh]
  constructor
  · calc (2 : ℚ) ^ num.log2 / 2 ^ (den.log2 + 1) ≤ num / 2 ^ (den.log2 + 1) := by gcongr
      _ < num / den := by gcongr
  · calc (num : ℚ) / den < 2 ^ (num.log2 + 1) / den := by gcongr
      _ ≤ 2 ^ (num.log2 + 1) / 2 ^ den.log2 := by gcongr

/-- **The order of a fraction is its logarithm.** It is found from the bit lengths of numerator and
denominator with a single comparison. -/
theorem binaryOrder_eq_log {num den : ℕ} (hnum : 0 < num) (hden : 0 < den) :
    binaryOrder num den = Int.log 2 ((num : ℚ) / den) := by
  have hvalue : (0 : ℚ) < num / den := div_pos (by exact_mod_cast hnum) (by exact_mod_cast hden)
  obtain ⟨hlow, hhigh⟩ := zpow_log2_sub_log2 hnum hden
  unfold binaryOrder
  dsimp only
  split_ifs with hguess
  · rw [← zpow_le_div_iff two_pos hden] at hguess
    exact (log_eq_of_zpow_le one_lt_two hvalue hguess (by exact_mod_cast hhigh)).symm
  · rw [← zpow_le_div_iff two_pos hden, not_le] at hguess
    refine (log_eq_of_zpow_le one_lt_two hvalue (by exact_mod_cast hlow.le) ?_).symm
    rw [sub_add_cancel]
    exact hguess

namespace Binary64

/-! ### Values -/

/-- The absolute value of a finite number. -/
def absoluteValue (x : Binary64) : ℚ := x.significand * 2 ^ x.exponent

variable {x : Binary64}

/-- A number is a fraction of natural numbers, the denominator being a power of two. -/
theorem numerator_div_denominator (x : Binary64) :
    (x.numerator : ℚ) / x.denominator = x.absoluteValue := by
  have h := mul_pow_div_mul_pow two_pos x.significand 1 x.exponent
  rw [Nat.one_mul, Nat.cast_one, div_one] at h
  exact h

theorem two_pow_52 : Nat.pow 2 52 = 4503599627370496 := rfl

/-- The exponent counts blocks of significands, the first two of which share an exponent. -/
theorem magnitude_eq (x : Binary64) :
    (x.exponent + 1074).toNat * Nat.pow 2 52 + x.significand = x.magnitude := by
  have hdivision := Nat.div_add_mod x.magnitude (Nat.pow 2 52)
  unfold exponent significand fractionField
  by_cases hfield : x.exponentField = 0
  · rw [if_pos hfield]
    rw [exponentField] at hfield ⊢
    rw [two_pow_52] at *
    omega
  · rw [if_neg hfield]
    rw [exponentField] at hfield ⊢
    rw [two_pow_52] at *
    omega

theorem significand_lt (x : Binary64) : x.significand < Nat.pow 2 53 := by
  have htwice : Nat.pow 2 53 = 2 * 4503599627370496 := rfl
  simp only [significand, fractionField, two_pow_52, htwice]
  split_ifs <;> omega

theorem le_exponent (x : Binary64) : -1074 ≤ x.exponent := by
  rw [exponent]
  omega

/-- Significands of the smallest exponent may be small. All others have their leading bit set, so
that every number has one form only. -/
theorem le_significand_or (x : Binary64) : Nat.pow 2 52 ≤ x.significand ∨ x.exponent = -1074 := by
  rw [significand, exponent]
  split_ifs with hfield
  · rw [hfield]
    exact Or.inr rfl
  · exact Or.inl (Nat.le_add_right _ _)

/-- The spacing of the numbers near a value is the exponent of the number with that value, also at
the lower end, where exponents stop falling. -/
theorem spacing_eq (hx : 0 < x.significand) :
    max (Int.log 2 x.absoluteValue - 52) (-1074) = x.exponent := by
  have hlog : Int.log 2 x.absoluteValue = Nat.log 2 x.significand + x.exponent :=
    log_natCast_mul_zpow one_lt_two hx x.exponent
  have hlt : Nat.log 2 x.significand < 53 :=
    (Nat.log_lt_iff_lt_pow one_lt_two hx.ne').mpr x.significand_lt
  have hle := x.le_exponent
  rw [hlog]
  rcases x.le_significand_or with hlarge | hsmall
  · have hge : 52 ≤ Nat.log 2 x.significand := (Nat.le_log_iff_pow_le one_lt_two hx.ne').mpr hlarge
    omega
  · omega

/-! ### Rounding -/

theorem div_eq_zero {num den : ℕ} (hden : 0 < den) : (num : ℚ) / den = 0 ↔ num = 0 := by
  rw [div_eq_zero_iff, Nat.cast_eq_zero, Nat.cast_eq_zero, or_iff_left hden.ne']

/-- A fraction counted in steps of a power of two. The power is put into the numerator or into the
denominator, whichever keeps it whole. -/
theorem steps_div (num den : ℕ) (spacing : ℤ) :
    ((num * Nat.pow 2 (-spacing).toNat : ℕ) : ℚ) / (den * Nat.pow 2 spacing.toNat : ℕ) =
      num / den * 2 ^ (-spacing) := by
  have h := mul_pow_div_mul_pow two_pos num den (-spacing)
  rwa [neg_neg, Nat.cast_ofNat] at h

/-- **Rounding depends on the value** of a fraction only, and not on its numerator and
denominator. -/
theorem ofRatio_congr {num den num' den' : ℕ} (hden : 0 < den) (hden' : 0 < den')
    (h : (num : ℚ) / den = num' / den') (negative : Bool) :
    ofRatio negative num den = ofRatio negative num' den' := by
  have hzero : num = 0 ↔ num' = 0 := by rw [← div_eq_zero hden, h, div_eq_zero hden']
  unfold ofRatio
  by_cases hnum : num = 0
  · rw [if_pos hnum, if_pos (hzero.mp hnum)]
  · rw [if_neg hnum, if_neg (mt hzero.mpr hnum)]
    have hnum' := Nat.pos_of_ne_zero (mt hzero.mpr hnum)
    rw [binaryOrder_eq_log (Nat.pos_of_ne_zero hnum) hden, binaryOrder_eq_log hnum' hden', h]
    dsimp only
    generalize max (Int.log 2 ((num' : ℚ) / den') - 52) (-1074) = spacing
    have hsteps : ((num * Nat.pow 2 (-spacing).toNat : ℕ) : ℚ) /
        (den * Nat.pow 2 spacing.toNat : ℕ) =
        (num' * Nat.pow 2 (-spacing).toNat : ℕ) / (den' * Nat.pow 2 spacing.toNat : ℕ) := by
      rw [steps_div, steps_div, h]
    have hpow : 0 < Nat.pow 2 spacing.toNat := Nat.pow_pos two_pos
    rw [roundHalfEven_congr (Nat.mul_pos hden hpow) (Nat.mul_pos hden' hpow) hsteps]

theorem absoluteValue_eq_zero_iff : x.absoluteValue = 0 ↔ x.magnitude = 0 := by
  have hpow : (2 : ℚ) ^ x.exponent ≠ 0 := zpow_ne_zero _ two_ne_zero
  have hmagnitude := x.magnitude_eq
  rw [absoluteValue, mul_eq_zero_iff_right hpow, Nat.cast_eq_zero]
  rw [two_pow_52] at hmagnitude
  constructor
  · intro hsignificand
    rcases x.le_significand_or with hlarge | hsmall
    · rw [hsignificand, two_pow_52] at hlarge
      omega
    · omega
  · omega

theorem significand_pos (hx : x.magnitude ≠ 0) : 0 < x.significand := by
  refine Nat.pos_of_ne_zero fun hnone => hx (absoluteValue_eq_zero_iff.mp ?_)
  rw [absoluteValue, hnone, Nat.cast_zero, zero_mul]

/-- A finite number is what its magnitude is put together to, with either sign. -/
theorem ofMagnitude_magnitude (hx : x.isFinite) (negative : Bool) :
    ofMagnitude negative x.magnitude = { x with negative := negative } := by
  rw [isFinite, decide_eq_true_eq] at hx
  rw [ofMagnitude, Binary64.mk.injEq]
  exact ⟨rfl, Nat.min_eq_left hx.le⟩

/-- **A finite number is the rounding of its own value**, whatever fraction that is given as.
Counted in steps of its own spacing it is a whole number, which rounding keeps. -/
theorem ofRatio_of_absoluteValue {num den : ℕ} (hx : x.isFinite) (hden : 0 < den)
    (h : (num : ℚ) / den = x.absoluteValue) (negative : Bool) :
    ofRatio negative num den = { x with negative := negative } := by
  have hzero : num = 0 ↔ x.magnitude = 0 := by rw [← div_eq_zero hden, h, absoluteValue_eq_zero_iff]
  rw [← ofMagnitude_magnitude hx negative]
  unfold ofRatio
  by_cases hnum : num = 0
  · rw [if_pos hnum, hzero.mp hnum]
    rfl
  · have hsignificand := significand_pos (mt hzero.mpr hnum)
    rw [if_neg hnum, binaryOrder_eq_log (Nat.pos_of_ne_zero hnum) hden, h]
    dsimp only
    rw [spacing_eq hsignificand]
    have hsteps : ((num * Nat.pow 2 (-x.exponent).toNat : ℕ) : ℚ) /
        (den * Nat.pow 2 x.exponent.toNat : ℕ) = x.significand / (1 : ℕ) := by
      rw [steps_div, h, absoluteValue, mul_assoc, ← zpow_add₀ two_ne_zero, add_neg_cancel,
        zpow_zero, mul_one, Nat.cast_one, div_one]
    have hpow : 0 < Nat.pow 2 x.exponent.toNat := Nat.pow_pos two_pos
    rw [roundHalfEven_congr (Nat.mul_pos hden hpow) one_pos hsteps, roundHalfEven_one,
      magnitude_eq]

end Binary64

end Overpass
