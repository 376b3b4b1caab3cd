import Mathlib.Data.Nat.Log
import Overpass.Numeric.Shortest
import Overpass.Proofs.Numeric.Rounding

/-!
# Rounding decimals

A decimal is rounded after a look at its order, which decides the extreme ones. The order is the
logarithm of the value, so this look does not depend on how the value is written, and no finite
number is among the extreme ones. Therefore the shortest decimal of a number reads back: if it was
found on one of the grids, because that is what was looked for, and else because it is exact.

## Main Definitions

* `Decimal.value`: the value of a decimal

## Main Statements

* `Decimal.order_eq_log`: the order of a decimal is the logarithm of its value
* `Binary64.ofDecimal_congr`: decimals of the same value are rounded to the same number
* `Binary64.ofDecimal_shortest`: the shortest decimal of a number is rounded to the number
-/

namespace Overpass

namespace Decimal

/-- The value of a decimal, as a rational number: its coefficient scaled by a power of ten. -/
def value (d : Decimal) : ℚ := d.coefficient * 10 ^ d.exponent

variable {d e : Decimal}

theorem denominator_pos (d : Decimal) : 0 < d.denominator := Nat.pow_pos (by decide)

theorem numerator_div_denominator (d : Decimal) : (d.numerator : ℚ) / d.denominator = d.value := by
  have h := mul_pow_div_mul_pow (b := 10) (by decide) d.coefficient 1 d.exponent
  rw [Nat.one_mul, Nat.cast_one, div_one] at h
  exact h

theorem value_eq_zero_iff : d.value = 0 ↔ d.coefficient = 0 := by
  have hpow : (10 : ℚ) ^ d.exponent ≠ 0 := zpow_ne_zero _ (by norm_num)
  rw [value, mul_eq_zero_iff_right hpow, Nat.cast_eq_zero]

theorem value_pos (h : d.coefficient ≠ 0) : 0 < d.value :=
  mul_pos (by exact_mod_cast Nat.pos_of_ne_zero h) (zpow_pos (by norm_num) _)

theorem digitCount_eq_log {n : ℕ} (h : n ≠ 0) : digitCount n = Nat.log 10 n + 1 := by
  have hlower : Nat.log 10 n < digitCount n := by
    rw [Nat.log_lt_iff_lt_pow (by decide) h]
    exact (Nat.length_toDigits_le_iff (by decide) Nat.length_toDigits_pos).mp le_rfl
  have hupper : digitCount n ≤ Nat.log 10 n + 1 :=
    (Nat.length_toDigits_le_iff (by decide) (Nat.succ_pos _)).mpr
      (Nat.lt_pow_succ_log_self (by decide) n)
  exact le_antisymm hupper hlower

/-- The order of a decimal is the logarithm of its value, counted from one. So it can be compared
with the bounds beyond which rounding overflows or vanishes. -/
theorem order_eq_log (h : d.coefficient ≠ 0) : d.order = Int.log 10 d.value + 1 := by
  have hlog : Int.log 10 d.value = Nat.log 10 d.coefficient + d.exponent :=
    log_natCast_mul_zpow (by decide) (Nat.pos_of_ne_zero h) d.exponent
  rw [hlog, order, digitCount_eq_log h]
  omega

end Decimal

namespace Binary64

variable {x : Binary64} {d e : Decimal}

/-- **Decimals of the same value are rounded to the same number.** So it does not matter in which of
its many forms a decimal is written, with zeros at either end or with an exponent. -/
theorem ofDecimal_congr (h : d.value = e.value) (negative : Bool) :
    ofDecimal negative d = ofDecimal negative e := by
  have hzero : d.coefficient = 0 ↔ e.coefficient = 0 := by
    rw [← Decimal.value_eq_zero_iff, h, Decimal.value_eq_zero_iff]
  unfold ofDecimal
  by_cases hd : d.coefficient = 0
  · rw [if_pos hd, if_pos (hzero.mp hd)]
  · have hratio : (d.numerator : ℚ) / d.denominator = e.numerator / e.denominator := by
      rw [d.numerator_div_denominator, e.numerator_div_denominator, h]
    rw [if_neg hd, if_neg (mt hzero.mpr hd), Decimal.order_eq_log hd,
      Decimal.order_eq_log (mt hzero.mpr hd), h,
      ofRatio_congr d.denominator_pos e.denominator_pos hratio]

/-- The sign is put before the absolute value after rounding, so that rounding need only be looked
at for what is positive. -/
theorem ofDecimal_eq_with (negative : Bool) (d : Decimal) :
    ofDecimal negative d = { ofDecimal false d with negative := negative } := by
  unfold ofDecimal ofRatio
  split_ifs <;> rfl

/-! ### The range of finite numbers -/

theorem absoluteValue_lt (hx : x.isFinite) : x.absoluteValue < 10 ^ (310 : ℤ) := by
  have hexponent : x.exponent ≤ 971 := by
    rw [isFinite, decide_eq_true_eq, infiniteMagnitude, two_pow_52] at hx
    rw [exponent, exponentField, two_pow_52]
    omega
  have hsignificand : (x.significand : ℚ) < 2 ^ (53 : ℤ) := by exact_mod_cast x.significand_lt
  have hscale : (2 : ℚ) ^ x.exponent ≤ 2 ^ (971 : ℤ) := zpow_le_zpow_right₀ one_le_two hexponent
  have hsum : (53 : ℤ) + 971 = 1024 := rfl
  calc x.absoluteValue < 2 ^ (53 : ℤ) * 2 ^ x.exponent := by rw [absoluteValue]; gcongr
    _ ≤ 2 ^ (53 : ℤ) * 2 ^ (971 : ℤ) := by gcongr
    _ = 2 ^ (1024 : ℤ) := by rw [← zpow_add₀ two_ne_zero, hsum]
    _ ≤ 10 ^ (310 : ℤ) := by exact_mod_cast (by decide +kernel : 2 ^ 1024 ≤ 10 ^ 310)

theorem le_absoluteValue (hx : x.magnitude ≠ 0) : 10 ^ (-331 : ℤ) ≤ x.absoluteValue := by
  have hsignificand : (1 : ℚ) ≤ x.significand := by exact_mod_cast significand_pos hx
  have hpow : (2 : ℚ) ^ 1074 ≤ 10 ^ 331 := by
    exact_mod_cast (by decide +kernel : 2 ^ 1074 ≤ 10 ^ 331)
  calc (10 : ℚ) ^ (-331 : ℤ) ≤ 2 ^ (-1074 : ℤ) := by
        rw [zpow_neg, zpow_neg]
        exact inv_anti₀ (by positivity) hpow
    _ ≤ 2 ^ x.exponent := zpow_le_zpow_right₀ one_le_two x.le_exponent
    _ ≤ x.absoluteValue := le_mul_of_one_le_left (zpow_nonneg zero_le_two _) hsignificand

/-- **A decimal of the value of a finite number is rounded to the number.** The bounds on the order
do not cut it off, and among its neighbours it is the nearest to itself. -/
theorem ofDecimal_of_absoluteValue (hx : x.isFinite) (h : d.value = x.absoluteValue)
    (negative : Bool) : ofDecimal negative d = { x with negative := negative } := by
  rw [← ofRatio_of_absoluteValue hx d.denominator_pos (d.numerator_div_denominator.trans h)]
  unfold ofDecimal
  by_cases hd : d.coefficient = 0
  · rw [if_pos hd, ofRatio, if_pos (by rw [Decimal.numerator, hd, Nat.zero_mul])]
  · have hvalue := Decimal.value_pos hd
    have hmagnitude : x.magnitude ≠ 0 := by
      rw [Ne, ← absoluteValue_eq_zero_iff, ← h]
      exact hvalue.ne'
    have horder := Decimal.order_eq_log hd
    have hhigh : Int.log 10 d.value < 310 := by
      rw [← Int.lt_zpow_iff_log_lt (by decide) hvalue, h]
      exact_mod_cast absoluteValue_lt hx
    have hlow : -331 ≤ Int.log 10 d.value := by
      rw [← Int.zpow_le_iff_le_log (by decide) hvalue, h]
      exact_mod_cast le_absoluteValue hmagnitude
    rw [if_neg hd, if_neg (by omega), if_neg (by omega)]

/-! ### Shortest decimals -/

/-- Every finite number is a decimal, exactly, since a half is five tenths. -/
theorem value_exactDecimal (x : Binary64) : x.exactDecimal.value = x.absoluteValue := by
  unfold exactDecimal
  split_ifs with hexponent
  · have hdenominator : x.denominator = 1 := by
      rw [denominator, Int.toNat_of_nonpos (by omega), Nat.pow_eq, pow_zero]
    rw [← x.numerator_div_denominator, hdenominator, Decimal.value, zpow_zero, Nat.cast_one,
      mul_one, div_one]
  · have hpow : ((Nat.pow 5 (-x.exponent).toNat : ℕ) : ℚ) = 5 ^ (-x.exponent) := by
      rw [Nat.pow_eq, Nat.cast_pow, ← zpow_natCast, Int.toNat_of_nonneg (by omega)]
      rfl
    have hten : (10 : ℚ) = 5 * 2 := by norm_num
    rw [Decimal.value, absoluteValue, Nat.cast_mul, hpow, hten, mul_zpow, mul_assoc,
      ← mul_assoc (5 ^ (-x.exponent)), ← zpow_add₀ (by norm_num), neg_add_cancel, zpow_zero,
      one_mul]

/-- What a grid has to offer reads back, since the search takes nothing else from a grid. -/
theorem readsBack_of_shortestOn_eq_some {tie : Tie} {unit : ℤ}
    (h : x.shortestOn tie unit = some d) : x.readsBack d := by
  unfold shortestOn at h
  dsimp only at h
  split at h
  · cases h
  · next hbelow _ =>
      cases h
      exact hbelow
  · next _ habove =>
      cases h
      exact habove
  -- Which of two neighbours that read back is taken does not matter.
  · next hbelow habove =>
      cases tie <;> dsimp only at h <;> split_ifs at h <;> cases h <;> assumption

/-- **The shortest decimal of a finite number is rounded to the number.** The search ends at the
exact decimal at the latest, which is one that reads back. -/
theorem ofDecimal_shortest (hx : x.isFinite) (tie : Tie) (negative : Bool) :
    ofDecimal negative (x.shortest tie) = { x with negative := negative } := by
  have hexact := ofDecimal_of_absoluteValue hx x.value_exactDecimal negative
  unfold shortest
  split_ifs with hzero
  · rw [ofDecimal, if_pos rfl, ← ofMagnitude_magnitude hx, hzero]
    rfl
  · dsimp only
    cases hfound : (List.range 17).findSome? fun i =>
        x.shortestOn tie (x.decimalOrder - (i + 1 : ℕ)) with
    | none => exact hexact
    | some d =>
        obtain ⟨unit, -, hunit⟩ := List.exists_of_findSome?_eq_some hfound
        have hread : ofDecimal false d = x.absolute :=
          eq_of_beq (readsBack_of_shortestOn_eq_some hunit)
        rw [Option.getD_some, ofDecimal_eq_with, hread]
        rfl

end Binary64

end Overpass
