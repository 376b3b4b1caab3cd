import Overpass.Proofs.Text.Words
import Overpass.Region

/-!
# The characters of numbers

Numbers are written with few characters: digits, signs, the decimal point, the mark of an exponent,
and the letters of the words for what is no finite number. Whatever else stands around numbers can
therefore be told from them: the text of a number ends where another character follows.

## Main Definitions

* `Numeral.isPart`: the characters that may stand in the text of a number

## Main Statements

* `Binary64.isPart_of_mem_text`, `Binary64.isPart_of_mem_degrees`: there are no other characters
-/

namespace Overpass

/-- Whether a character may stand in the text of a number. -/
def Numeral.isPart (c : Char) : Bool :=
  c.isDigit || ['-', '+', '.', 'e', 'N', 'a', 'i', 'n', 'f'].contains c

theorem Numeral.isPart_of_mem_toDigits {n : ℕ} {c : Char} (h : c ∈ Nat.toDigits 10 n) :
    isPart c = true := by
  rw [isPart, Nat.isDigit_of_mem_toDigits (by decide) (by decide) h, Bool.true_or]

namespace NumberStyle

variable {style : NumberStyle} {digits : List Char}

theorem isPart_of_mem_positionalText (h : ∀ c ∈ digits, Numeral.isPart c) (point : Int) :
    ∀ c ∈ style.positionalText digits point, Numeral.isPart c := by
  have hzero : ∀ n, ∀ c ∈ List.replicate n '0', Numeral.isPart c := by
    intro n c hc
    rw [List.eq_of_mem_replicate hc]
    rfl
  have hpoint : Numeral.isPart '.' = true := rfl
  unfold positionalText
  split_ifs
  · simp only [List.forall_mem_cons, List.forall_mem_append]
    exact ⟨rfl, hpoint, hzero _, h⟩
  · simp only [List.forall_mem_append]
    exact ⟨⟨h, hzero _⟩, List.all_eq_true.mp rfl⟩
  · simp only [List.forall_mem_append]
    exact ⟨⟨h, hzero _⟩, List.all_eq_true.mp rfl⟩
  · simp only [List.forall_mem_append, List.forall_mem_cons]
    exact ⟨fun c hc => h c (List.mem_of_mem_take hc), hpoint,
      fun c hc => h c (List.mem_of_mem_drop hc)⟩

theorem isPart_of_mem_exponentText (h : ∀ c ∈ digits, Numeral.isPart c) (order : Int) :
    ∀ c ∈ style.exponentText digits order, Numeral.isPart c := by
  unfold exponentText
  dsimp only
  simp only [List.forall_mem_append, List.forall_mem_cons]
  refine ⟨⟨?_, rfl, ?_⟩, fun c hc => Numeral.isPart_of_mem_toDigits hc⟩
  · split
    · exact h
    · exact h
    · simp only [List.forall_mem_cons] at h ⊢
      exact ⟨h.1, rfl, h.2⟩
  · split_ifs <;> exact List.all_eq_true.mp rfl

/-- A decimal is written with characters of numbers only, whatever the style. So it can be told from
the commas, blanks and brackets around it. -/
theorem isPart_of_mem_decimalText (d : Decimal) :
    ∀ c ∈ style.decimalText d, Numeral.isPart c := by
  have hdigits : ∀ c ∈ d.digits, Numeral.isPart c :=
    fun c hc => Numeral.isPart_of_mem_toDigits hc
  unfold decimalText
  dsimp only
  split_ifs
  · exact isPart_of_mem_positionalText (List.all_eq_true.mp rfl) 1
  · exact isPart_of_mem_positionalText hdigits _
  · exact isPart_of_mem_exponentText hdigits _

end NumberStyle

namespace Binary64

theorem isNaN_of_isFinite {x : Binary64} (h : x.isFinite) : x.isNaN = false := by
  simp only [isFinite, isNaN, decide_eq_true_eq, decide_eq_false_iff_not] at h ⊢
  exact Nat.not_lt.mpr (Nat.le_of_lt h)

/-- A finite number is written as a sign and its shortest decimal. The style decides where the point
is and which of two nearest decimals is taken. -/
theorem text_of_isFinite {x : Binary64} (h : x.isFinite) (style : NumberStyle) :
    x.text style =
      (if x.negative then ['-'] else []) ++ style.decimalText (x.shortest style.tie) := by
  rw [text, isNaN_of_isFinite h, h, if_neg Bool.false_ne_true, if_pos rfl]

theorem isPart_of_mem_text (style : NumberStyle) (x : Binary64) :
    ∀ c ∈ x.text style, Numeral.isPart c := by
  have hsign : ∀ c ∈ (if x.negative then ['-'] else []), Numeral.isPart c := by
    split_ifs <;> exact List.all_eq_true.mp rfl
  rw [text]
  generalize (if x.negative then ['-'] else []) = sign at hsign
  split_ifs
  · exact List.all_eq_true.mp rfl
  · exact List.forall_mem_append.mpr ⟨hsign, NumberStyle.isPart_of_mem_decimalText _⟩
  · exact List.forall_mem_append.mpr ⟨hsign, List.all_eq_true.mp rfl⟩

/-- Degrees consist of characters of numbers too, words for what is not finite included. -/
theorem isPart_of_mem_degrees (x : Binary64) : ∀ c ∈ x.degrees, Numeral.isPart c := by
  unfold degrees
  dsimp only
  split_ifs
  · exact isPart_of_mem_text .plain x
  · rw [List.forall_mem_append]
    exact ⟨isPart_of_mem_text .plain x, List.all_eq_true.mp rfl⟩

end Binary64

end Overpass
