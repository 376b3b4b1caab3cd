import Overpass.Proofs.Text.Pattern
import Overpass.SetName

/-!
# The syntax of set names

The two patterns of set names say the same as plain conditions on the characters of a text: where it
starts, what stands in it, and how many digits follow. All that is proved about names goes through
these conditions.

## Main Definitions

* `SetName.isWellFormed`, `SetName.isReserved`: the syntax, and the generated forms within it
* `SetName.IsNumberedForm`, `SetName.IsKeyForm`: the two generated forms apart

## Main Statements

* `SetName.accepts_namePattern`, `SetName.accepts_generatedPattern`: what the patterns accept
* `SetName.isReserved_iff`: a reserved text has one of the two generated forms
-/

namespace Overpass.SetName

open Text Text.Pattern

/-- An ASCII letter or underscore, followed by ASCII letters, digits and underscores. -/
def isWellFormed : List Char → Bool
  | [] => false
  | c :: rest => isStart c && rest.all isPart

/-- The generated forms: `_s` and a number, or `_a` and sixteen hexadecimal digits. -/
def isReserved : List Char → Bool
  | '_' :: 's' :: digits => !digits.isEmpty && digits.all Char.isDigit
  | '_' :: 'a' :: digits => digits.length == 16 && digits.all isHexDigit
  | _ => false

/-- Whether a text is `_s` followed by one digit or more, and by nothing else. -/
def IsNumberedForm (text : List Char) : Prop :=
  ∃ digits, text = '_' :: 's' :: digits ∧ digits ≠ [] ∧ ∀ c ∈ digits, c.isDigit = true

/-- Whether a text is `_a` followed by sixteen lower-case hexadecimal digits, and by nothing
else. -/
def IsKeyForm (text : List Char) : Prop :=
  ∃ digits, text = '_' :: 'a' :: digits ∧ digits.length = 16 ∧ ∀ c ∈ digits, isHexDigit c = true

variable {text : List Char} {groups : List (List Char)}

theorem isWellFormed_iff :
    isWellFormed text = true ↔
      ∃ c rest, text = c :: rest ∧ isStart c = true ∧ ∀ d ∈ rest, isPart d = true := by
  cases text with
  | nil => simp [isWellFormed]
  | cons c rest => simp [isWellFormed]

/-- The names that callers are refused: an underscore and an s followed by digits, or an underscore
and an a followed by sixteen digits of a digest. -/
theorem isReserved_iff : isReserved text = true ↔ IsNumberedForm text ∨ IsKeyForm text := by
  unfold isReserved IsNumberedForm IsKeyForm
  split
  · simp
  · simp
  · next hnumbered hkey =>
      refine ⟨fun h => absurd h Bool.false_ne_true, ?_⟩
      rintro (⟨digits, rfl, -⟩ | ⟨digits, rfl, -⟩)
      · exact absurd rfl (hnumbered digits)
      · exact absurd rfl (hkey digits)

/-! ### What the patterns accept -/

theorem matches_namePattern_iff :
    namePattern.Matches text groups ↔ isWellFormed text = true ∧ groups = [] := by
  rw [isWellFormed_iff, namePattern, matches_append_iff]
  constructor
  · rintro ⟨_, rest, _, _, rfl, rfl, hfirst, hrest⟩
    obtain ⟨c, rfl, hc, rfl⟩ := matches_one_iff.mp hfirst
    obtain ⟨hparts, rfl⟩ := matches_many_iff.mp hrest
    exact ⟨⟨c, rest, rfl, hc, hparts⟩, rfl⟩
  · rintro ⟨⟨c, rest, rfl, hc, hrest⟩, rfl⟩
    exact ⟨[c], rest, [], [], rfl, rfl, .one hc, .many hrest⟩

/-- A pattern after a given character. All patterns of generated names start so, with the underscore
and the letter. -/
theorem matches_char_append_iff {c : Char} {pattern : Pattern} :
    (append (one (· == c)) pattern).Matches text groups ↔
      ∃ rest, text = c :: rest ∧ pattern.Matches rest groups := by
  rw [matches_append_iff]
  constructor
  · rintro ⟨_, rest, _, _, rfl, rfl, hfirst, hrest⟩
    obtain ⟨d, rfl, hd, rfl⟩ := matches_one_iff.mp hfirst
    exact ⟨rest, by rw [beq_iff_eq.mp hd]; rfl, hrest⟩
  · rintro ⟨rest, rfl, hrest⟩
    exact ⟨[c], rest, [], groups, rfl, rfl, .one (beq_self_eq_true c), hrest⟩

theorem matches_generatedPattern_iff :
    generatedPattern.Matches text groups ↔
      (IsNumberedForm text ∨ IsKeyForm text) ∧ groups = [] := by
  rw [generatedPattern, matches_char_append_iff]
  simp only [matches_either_iff, matches_char_append_iff, matches_atLeastOne_iff,
    matches_exactly_iff]
  constructor
  · rintro ⟨_, rfl, ⟨digits, rfl, hne, hdigits, rfl⟩ | ⟨digits, rfl, hlength, hdigits, rfl⟩⟩
    · exact ⟨Or.inl ⟨digits, rfl, hne, hdigits⟩, rfl⟩
    · exact ⟨Or.inr ⟨digits, rfl, hlength, hdigits⟩, rfl⟩
  · rintro ⟨⟨digits, rfl, hne, hdigits⟩ | ⟨digits, rfl, hlength, hdigits⟩, rfl⟩
    · exact ⟨_, rfl, Or.inl ⟨digits, rfl, hne, hdigits, rfl⟩⟩
    · exact ⟨_, rfl, Or.inr ⟨digits, rfl, hlength, hdigits, rfl⟩⟩

/-- The pattern of names accepts the texts that the direct test accepts. So names can be spoken of
by their characters, although they are read by a pattern. -/
theorem accepts_namePattern (text : List Char) : namePattern.accepts text = isWellFormed text := by
  rw [Bool.eq_iff_iff, accepts, isSome_groups?_iff]
  simp only [matches_namePattern_iff, exists_eq_right]

theorem accepts_generatedPattern (text : List Char) :
    generatedPattern.accepts text = isReserved text := by
  rw [Bool.eq_iff_iff, accepts, isSome_groups?_iff, isReserved_iff]
  simp only [matches_generatedPattern_iff, exists_eq_right]

/-- A name is accepted if it has the syntax of names and is not reserved, and is taken as it is
given. -/
theorem ofText?_eq_some_iff {given : String} {name : SetName} :
    ofText? given = some name ↔
      isWellFormed given.toList = true ∧ isReserved given.toList = false ∧ name = ⟨given⟩ := by
  rw [ofText?, accepts_namePattern, accepts_generatedPattern, Option.ite_none_right_eq_some,
    Bool.and_eq_true_iff, Bool.not_eq_true', Option.some_inj, and_assoc, eq_comm (a := name)]

end Overpass.SetName
