import Overpass.Numeric.Numeral
import Overpass.Numeric.Style
import Overpass.Proofs.Numeric.Decimal
import Overpass.Proofs.Numeric.Text

/-!
# Reading numbers back

A number is written from its shortest decimal: with or without an exponent, with zeros before or
after the digits, and with the decimal point somewhere among them. Reading such a text gives a
decimal of the same value, though not always with the same coefficient, and decimals of one value
are rounded alike. So every finite number is read back from its text, in every style, and two
finite numbers with the same text are the same down to their bits. Degrees are such a text too: the
`.0` that they may end in is what a style with a point writes.

## Main Definitions

* `Numeral.Denotes`: whether a text without sign is read as a decimal of a value
* `NumberStyle.pointed`: the style of degrees

## Main Statements

* `NumberStyle.denotes_decimalText`: the text of a decimal denotes its value
* `Binary64.ofNumeral_text`: a finite number is read back from its text
* `Binary64.ofNumeral_degrees`: a finite number is read back from its degrees
-/

namespace Overpass

namespace Numeral

/-! ### Digits -/

/-- Zeros before digits do not count. This is how a small number is written without an exponent. -/
theorem digitsValue_zeros_append (n : ℕ) (cs : List Char) :
    digitsValue (List.replicate n '0' ++ cs) = digitsValue cs := by
  rw [digitsValue, Nat.ofDigitChars_append, Nat.ofDigitChars_replicate_zero, Nat.mul_zero,
    digitsValue]

/-- Zeros after digits shift them. This is how digits are put to the left of the point when the
number is large. -/
theorem digitsValue_append_zeros (cs : List Char) (n : ℕ) :
    digitsValue (cs ++ List.replicate n '0') = digitsValue cs * 10 ^ n := by
  rw [digitsValue, Nat.ofDigitChars_append, Nat.ofDigitChars_replicate_zero, Nat.mul_comm,
    digitsValue]

theorem digitsValue_toDigits (n : ℕ) : digitsValue (Nat.toDigits 10 n) = n :=
  Nat.ofDigitChars_ten_toDigits

theorem isDigit_of_mem_toDigits {n : ℕ} {c : Char} (h : c ∈ Nat.toDigits 10 n) : c.isDigit = true :=
  Nat.isDigit_of_mem_toDigits (by decide) (by decide) h

theorem isDigit_of_mem_zeros {n : ℕ} {c : Char} (h : c ∈ List.replicate n '0') :
    c.isDigit = true := by
  rw [List.eq_of_mem_replicate h]
  rfl

/-! ### Parts of a numeral -/

variable {whole fraction rest cs : List Char}

theorem splitSign_eq_self (h : ∀ c ∈ cs.head?, c ≠ '-' ∧ c ≠ '+') : splitSign cs = (false, cs) := by
  unfold splitSign
  split
  · exact absurd rfl (h '-' rfl).1
  · exact absurd rfl (h '+' rfl).2
  · rfl

/-- A written exponent is read back, whether or not a positive one carries a sign. -/
theorem powerOfTen_exponent (order : ℤ) (plus : Bool) :
    powerOfTen ('e' :: ((if order < 0 then ['-'] else if plus then ['+'] else []) ++
      Nat.toDigits 10 order.natAbs)) = some order := by
  have hdigits : ∀ c ∈ Nat.toDigits 10 order.natAbs, c.isDigit = true :=
    fun c hc => isDigit_of_mem_toDigits hc
  have hvalue := digitsValue_toDigits order.natAbs
  have hnonempty : (Nat.toDigits 10 order.natAbs).isEmpty = false := by
    rw [List.isEmpty_eq_false_iff]
    exact Nat.toDigits_ne_nil
  have hself : splitSign (Nat.toDigits 10 order.natAbs) =
      (false, Nat.toDigits 10 order.natAbs) := by
    refine splitSign_eq_self fun c hc => ?_
    have hdigit := hdigits c (List.mem_of_mem_head? hc)
    constructor <;> rintro rfl <;> cases hdigit
  have hall : (Nat.toDigits 10 order.natAbs).all Char.isDigit = true := List.all_eq_true.mpr hdigits
  generalize Nat.toDigits 10 order.natAbs = digits at *
  split_ifs with hnegative
  · simp [powerOfTen, splitSign, hnonempty, hall, hvalue, abs_of_neg hnegative]
  · simp [powerOfTen, splitSign, hnonempty, hall, hvalue]
    omega
  · simp [powerOfTen, hself, hnonempty, hall, hvalue]
    omega

/-- Whether a text without sign is read as a decimal of a value. Which of the decimals of that value
it is does not matter. -/
def Denotes (cs : List Char) (value : ℚ) : Prop := ∃ d, decimal cs = some d ∧ d.value = value

variable {power : ℤ}

/-- What a numeral with a point denotes: all of its digits read as one number, shifted by as many
places as there are digits after the point. -/
theorem denotes_point (whole fraction rest : List Char) (hwhole : ∀ c ∈ whole, c.isDigit = true)
    (hfraction : ∀ c ∈ fraction, c.isDigit = true) (hne : whole ≠ [])
    (hrest : ∀ c ∈ rest.head?, c.isDigit = false) (hpower : powerOfTen rest = some power) :
    Denotes (whole ++ '.' :: (fraction ++ rest))
      (digitsValue (whole ++ fraction) * 10 ^ (power - fraction.length)) := by
  have hpoint : ∀ c ∈ ('.' :: (fraction ++ rest)).head?, c.isDigit = false := by simp
  obtain ⟨htake, hdrop⟩ := takeWhile_append_of_head? hwhole hpoint
  obtain ⟨htake', hdrop'⟩ := takeWhile_append_of_head? hfraction hrest
  refine ⟨⟨digitsValue (whole ++ fraction), power - fraction.length⟩, ?_, rfl⟩
  rw [decimal, htake, hdrop, splitFraction, htake', hdrop']
  simp [hne, hpower]

/-- What a numeral without a point denotes: its digits, scaled by the power that follows them. -/
theorem denotes_whole (whole rest : List Char) (hwhole : ∀ c ∈ whole, c.isDigit = true)
    (hne : whole ≠ []) (hrest : ∀ c ∈ rest.head?, c.isDigit = false ∧ c ≠ '.')
    (hpower : powerOfTen rest = some power) :
    Denotes (whole ++ rest) (digitsValue whole * 10 ^ power) := by
  obtain ⟨htake, hdrop⟩ := takeWhile_append_of_head? hwhole fun c hc => (hrest c hc).1
  have hsplit : splitFraction rest = ([], rest) := by
    unfold splitFraction
    split
    · exact absurd rfl (hrest '.' rfl).2
    · rfl
  refine ⟨⟨digitsValue whole, power⟩, ?_, rfl⟩
  rw [decimal, htake, hdrop, hsplit]
  simp [hne, hpower]

/-- A numeral starts with a digit or with the point. So it is not taken for a sign or for the word
of an infinity. -/
theorem exists_head_of_decimal_eq_some {d : Decimal} (h : decimal cs = some d) :
    ∃ c rest, cs = c :: rest ∧ (c.isDigit = true ∨ c = '.') := by
  cases cs with
  | nil => cases h
  | cons c rest =>
      refine ⟨c, rest, rfl, ?_⟩
      by_contra hhead
      rw [not_or, Bool.not_eq_true] at hhead
      obtain ⟨hdigit, hpoint⟩ := hhead
      have hsplit : splitFraction (c :: rest) = ([], c :: rest) := by
        unfold splitFraction
        split
        · next heq => exact absurd (List.cons.inj heq).1 hpoint
        · rfl
      rw [decimal, List.takeWhile_cons_of_neg (by simp [hdigit]),
        List.dropWhile_cons_of_neg (by simp [hdigit]), hsplit] at h
      cases h

/-- Neither a digit nor the point has a case, or is the first letter of a word. -/
theorem toLower_eq_self {c : Char} (h : c.isDigit = true ∨ c = '.') : c.toLower = c := by
  rcases h with h | rfl
  · simp only [Char.isDigit, Bool.and_eq_true, decide_eq_true_eq, ge_iff_le,
      UInt32.le_iff_toNat_le] at h
    unfold Char.toLower
    rw [dif_neg]
    simp only [ge_iff_le, UInt32.le_iff_toNat_le]
    have hnine : '9'.val.toNat = 57 := rfl
    have hletter : 'A'.val.toNat = 65 := rfl
    omega
  · rfl

/-- A numeral is rounded, and the sign before it is that of the number. A zero keeps its sign by
this. -/
theorem ofNumeral_of_decimal {d : Decimal} (h : decimal cs = some d) (negative : Bool) :
    Binary64.ofNumeral ((if negative then ['-'] else []) ++ cs) = .ok (.ofDecimal negative d) := by
  obtain ⟨c, rest, rfl, hhead⟩ := exists_head_of_decimal_eq_some h
  have hne : ∀ letter : Char, letter.isDigit = false → letter ≠ '.' → c ≠ letter := by
    rintro letter hdigit hpoint rfl
    rw [hdigit] at hhead
    rcases hhead with hhead | hhead
    · cases hhead
    · exact hpoint hhead
  have hinfinity : isInfinityWord (c :: rest) = false := by
    simp [isInfinityWord, toLower_eq_self hhead, hne 'i' rfl (by decide)]
  have hnan : isNaNWord (c :: rest) = false := by
    simp [isNaNWord, toLower_eq_self hhead, hne 'n' rfl (by decide)]
  have hsplit : splitSign ((if negative then ['-'] else []) ++ c :: rest) =
      (negative, c :: rest) := by
    cases negative with
    | true => rfl
    | false =>
        refine splitSign_eq_self fun d hd => ?_
        rw [← Option.some_inj.mp hd]
        exact ⟨hne '-' rfl (by decide), hne '+' rfl (by decide)⟩
  rw [Binary64.ofNumeral, hsplit]
  simp [hinfinity, hnan, h]

end Numeral

namespace NumberStyle

open Numeral

variable (style : NumberStyle) {digits : List Char}

/-- The digits of a positional text are counted in units of the power of ten that their point is
away from their end. -/
theorem denotes_positionalText (digits : List Char) (hdigits : ∀ c ∈ digits, c.isDigit = true)
    (hne : digits ≠ []) (point : ℤ) :
    Denotes (style.positionalText digits point)
      (digitsValue digits * 10 ^ (point - digits.length)) := by
  have hzeros : ∀ n, ∀ c ∈ List.replicate n '0', c.isDigit = true :=
    fun n c hc => isDigit_of_mem_zeros hc
  unfold positionalText
  split_ifs with hsmall hlarge hpoint
  -- The digits follow after the point and zeros.
  · have hread := denotes_point ['0'] _ [] (hzeros 1)
      (List.forall_mem_append.mpr ⟨hzeros (-point).toNat, hdigits⟩) (by decide) (by simp) rfl
    have hvalue : digitsValue (['0'] ++ (List.replicate (-point).toNat '0' ++ digits)) =
        digitsValue digits := by
      rw [← digitsValue_zeros_append (-point).toNat digits]
      exact digitsValue_zeros_append 1 _
    have hexponent : (0 : ℤ) - (List.replicate (-point).toNat '0' ++ digits).length =
        point - digits.length := by
      rw [List.length_append, List.length_replicate]
      omega
    rwa [List.append_nil, hvalue, hexponent] at hread
  -- Zeros follow after the digits, and then perhaps a fraction of zero.
  · have hread := denotes_point _ (List.replicate 1 '0') []
      (List.forall_mem_append.mpr ⟨hdigits, hzeros (point.toNat - digits.length)⟩) (hzeros 1)
      (List.append_ne_nil_of_left_ne_nil hne _) (by simp) rfl
    have hexponent : (point - digits.length : ℤ) = (point.toNat - digits.length : ℕ) := by omega
    rw [digitsValue_append_zeros, digitsValue_append_zeros] at hread
    rw [hexponent, zpow_natCast]
    simpa using hread
  · have hread := denotes_whole _ []
      (List.forall_mem_append.mpr ⟨hdigits, hzeros (point.toNat - digits.length)⟩)
      (List.append_ne_nil_of_left_ne_nil hne _) (by simp) rfl
    have hexponent : (point - digits.length : ℤ) = (point.toNat - digits.length : ℕ) := by omega
    rw [digitsValue_append_zeros] at hread
    rw [hexponent, zpow_natCast]
    simpa using hread
  -- The point is among the digits.
  · have hread := denotes_point (digits.take point.toNat) (digits.drop point.toNat) []
      (fun c hc => hdigits c (List.mem_of_mem_take hc))
      (fun c hc => hdigits c (List.mem_of_mem_drop hc)) (by simp [hne]; omega) (by simp) rfl
    have hexponent : (0 : ℤ) - (digits.drop point.toNat).length = point - digits.length := by
      rw [List.length_drop]
      omega
    rwa [List.append_nil, List.take_append_drop, hexponent] at hread

/-- The point of an exponent text is after the first digit, so that the order is the exponent. -/
theorem denotes_exponentText (hdigits : ∀ c ∈ digits, c.isDigit = true) (hne : digits ≠ [])
    (order : ℤ) :
    Denotes (style.exponentText digits order)
      (digitsValue digits * 10 ^ (order + 1 - digits.length)) := by
  have hpower := powerOfTen_exponent order style.exponentPlus
  unfold exponentText
  dsimp only
  generalize (if order < 0 then ['-'] else if style.exponentPlus then ['+'] else []) = sign
    at hpower
  rw [List.append_assoc, List.cons_append]
  cases digits with
  | nil => exact absurd rfl hne
  | cons digit fraction =>
      obtain ⟨hdigit, hfraction⟩ := List.forall_mem_cons.mp hdigits
      have hexponent : order + 1 - (digit :: fraction).length = order - fraction.length := by
        rw [List.length_cons]
        omega
      rw [hexponent]
      cases fraction with
      | nil =>
          have hread := denotes_whole [digit] _ (List.forall_mem_singleton.mpr hdigit) (by simp)
            (by simp) hpower
          rwa [List.length_nil, Nat.cast_zero, sub_zero]
      | cons next fraction =>
          exact denotes_point [digit] _ _ (List.forall_mem_singleton.mpr hdigit) hfraction (by simp)
            (by simp) hpower

/-- **The text of a decimal denotes its value**, in every style: with the point inside of the
digits, with zeros before or after them, or with an exponent. -/
theorem denotes_decimalText (d : Decimal) : Denotes (style.decimalText d) d.value := by
  have hdigits : ∀ c ∈ d.digits, c.isDigit = true := fun c hc => isDigit_of_mem_toDigits hc
  have hne : d.digits ≠ [] := Nat.toDigits_ne_nil
  have hvalue : (digitsValue d.digits : ℚ) * 10 ^ (d.order - d.digits.length) = d.value := by
    have hexponent : d.order - d.digits.length = d.exponent := by
      rw [Decimal.order, digitCount, Decimal.digits]
      omega
    rw [hexponent, Decimal.digits, digitsValue_toDigits, Decimal.value]
  unfold decimalText
  dsimp only
  split_ifs with hzero hpositional
  · have hread := style.denotes_positionalText ['0'] (List.all_eq_true.mp rfl) (by decide) 1
    have hnothing : digitsValue ['0'] = 0 := rfl
    rw [hnothing, Nat.cast_zero, zero_mul] at hread
    rwa [Decimal.value_eq_zero_iff.mpr hzero]
  · rw [← hvalue]
    exact style.denotes_positionalText d.digits hdigits hne d.order
  · have hread := style.denotes_exponentText hdigits hne (d.order - 1)
    rwa [sub_add_cancel, hvalue] at hread

end NumberStyle

namespace Binary64

variable {x : Binary64}

/-- The text of a finite number starts with a digit, a point or a minus. No word starts with any of
these, so a number is told from words by its first character. -/
theorem exists_head_text (hx : x.isFinite) (style : NumberStyle) :
    ∃ c cs, x.text style = c :: cs ∧ (c.isDigit = true ∨ c = '.' ∨ c = '-') := by
  obtain ⟨d, hread, -⟩ := style.denotes_decimalText (x.shortest style.tie)
  obtain ⟨c, cs, htext, hc⟩ := Numeral.exists_head_of_decimal_eq_some hread
  rw [text_of_isFinite hx, htext]
  split_ifs
  · exact ⟨'-', _, rfl, Or.inr (Or.inr rfl)⟩
  · exact ⟨c, cs, rfl, hc.imp_right Or.inl⟩

/-- **A finite number is read back from its text**, whatever the style. What is written is a decimal
that is rounded to the number, and reading rounds that decimal. -/
theorem ofNumeral_text (hx : x.isFinite) (style : NumberStyle) :
    ofNumeral (x.text style) = .ok x := by
  obtain ⟨d, hread, hvalue⟩ := style.denotes_decimalText (x.shortest style.tie)
  rw [text_of_isFinite hx, Numeral.ofNumeral_of_decimal hread, ofDecimal_congr hvalue,
    ofDecimal_shortest hx]

end Binary64

/-! ### Degrees -/

namespace NumberStyle

/-- Never an exponent, and always a point. -/
def pointed : NumberStyle := ⟨.up, fun _ => true, true, false⟩

/-- A plain text of digits either has its point or is a whole number, which keeps `.0` where a point
is asked for. -/
theorem positionalText_pointed {digits : List Char} (hdigits : ∀ c ∈ digits, c.isDigit = true)
    (point : ℤ) :
    pointed.positionalText digits point =
      if '.' ∈ plain.positionalText digits point then plain.positionalText digits point
      else plain.positionalText digits point ++ ['.', '0'] := by
  have hnone : '.' ∉ digits := fun hmem => by cases hdigits '.' hmem
  unfold positionalText
  split_ifs with hsmall hlarge <;> simp_all [pointed, plain]

/-- A style without exponents writes every decimal positionally; zero is the digit `0`. -/
theorem exists_positionalText (d : Decimal) :
    ∃ digits point, (∀ c ∈ digits, c.isDigit = true) ∧ ∀ style : NumberStyle,
      (∀ order, style.positional order = true) →
        style.decimalText d = style.positionalText digits point := by
  by_cases hzero : d.coefficient = 0
  · refine ⟨['0'], 1, List.all_eq_true.mp rfl, fun style _ => ?_⟩
    rw [decimalText, if_pos hzero]
  · refine ⟨d.digits, d.order, fun c hc => Numeral.isDigit_of_mem_toDigits hc, fun style hall => ?_⟩
    rw [decimalText, if_neg hzero, if_pos (hall _)]

theorem decimalText_pointed (d : Decimal) :
    pointed.decimalText d =
      if '.' ∈ plain.decimalText d then plain.decimalText d
      else plain.decimalText d ++ ['.', '0'] := by
  obtain ⟨digits, point, hdigits, htext⟩ := exists_positionalText d
  rw [htext pointed fun _ => rfl, htext plain fun _ => rfl]
  exact positionalText_pointed hdigits point

end NumberStyle

namespace Binary64

variable {x : Binary64}

/-- Degrees are a text of the number in a style that always writes a point. The style has no
exponents, however large or small the number is. -/
theorem degrees_eq_text (hx : x.isFinite) : x.degrees = x.text .pointed := by
  have hties : NumberStyle.pointed.tie = NumberStyle.plain.tie := rfl
  have hsign : '.' ∉ (if x.negative then ['-'] else []) := by split_ifs <;> decide
  unfold degrees
  rw [text_of_isFinite hx, text_of_isFinite hx, NumberStyle.decimalText_pointed, hties]
  generalize (if x.negative then ['-'] else []) = sign at hsign
  by_cases hpoint : '.' ∈ NumberStyle.plain.decimalText (x.shortest NumberStyle.plain.tie) <;>
    simp [hpoint, hsign]

/-- **A finite number is read back from its degrees**, bit for bit, with the sign of a zero. -/
theorem ofNumeral_degrees (hx : x.isFinite) : ofNumeral x.degrees = .ok x := by
  rw [degrees_eq_text hx]
  exact ofNumeral_text hx .pointed

/-- Degrees hold a point, so they are never empty, not even for what is no number. -/
theorem degrees_ne_nil (x : Binary64) : x.degrees ≠ [] := by
  have hpoint : '.' ∈ x.degrees := by
    unfold degrees
    dsimp only
    split_ifs with h
    · exact h
    · exact List.mem_append_right _ List.mem_cons_self
  exact List.ne_nil_of_mem hpoint

end Binary64

end Overpass
