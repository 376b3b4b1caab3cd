import Mathlib.Data.List.Basic
import Overpass.Text.Pattern

/-!
# What patterns match

What a pattern may match, and with which marked parts, is a relation that knows no order among
choices. The search through the choices finds a way to match whenever there is one, and finds only
such ways; which one it finds first is left open here. Where all of them come to the same in the
end, nothing else needs to be known of the search.

## Main Definitions

* `Text.Pattern.Matches`: the texts that a pattern matches, each with the texts of its groups

## Main Statements

* `Text.Pattern.exists_matches_of_run`, `Text.Pattern.isSome_run`: the search is sound and complete
* `Text.Pattern.matches_of_groups?`, `Text.Pattern.isSome_groups?_iff`: so is matching a whole text
-/

namespace Overpass.Text.Pattern

variable {α : Type} {p : Char → Bool} {pattern first second inner : Pattern}
variable {text front rest : List Char} {groups : List (List Char)}

/-- The texts that a pattern matches, each with the texts of the groups that take part. -/
inductive Matches : Pattern → List Char → List (List Char) → Prop
  | one {p : Char → Bool} {c : Char} (hc : p c = true) : Matches (one p) [c] []
  | many {p : Char → Bool} {text : List Char} (htext : ∀ c ∈ text, p c = true) :
      Matches (many p) text []
  | append {first second : Pattern} {front back : List Char} {groups groups' : List (List Char)}
      (hfirst : Matches first front groups) (hsecond : Matches second back groups') :
      Matches (append first second) (front ++ back) (groups ++ groups')
  | taken {inner : Pattern} {text : List Char} {groups : List (List Char)}
      (hinner : Matches inner text groups) : Matches (optional inner) text groups
  | left {inner : Pattern} : Matches (optional inner) [] []
  | first {first second : Pattern} {text : List Char} {groups : List (List Char)}
      (hfirst : Matches first text groups) : Matches (either first second) text groups
  | second {first second : Pattern} {text : List Char} {groups : List (List Char)}
      (hsecond : Matches second text groups) : Matches (either first second) text groups
  | group {inner : Pattern} {text : List Char} {groups : List (List Char)}
      (hinner : Matches inner text groups) : Matches (group inner) text (text :: groups)

/-! ### Forms of patterns -/

/-- A class matches the texts of a single character of it. With the lemmas below, what a pattern
matches is put in terms of plain lists. -/
theorem matches_one_iff :
    (one p).Matches text groups ↔ ∃ c, text = [c] ∧ p c = true ∧ groups = [] := by
  constructor
  · rintro ⟨hc⟩
    exact ⟨_, rfl, hc, rfl⟩
  · rintro ⟨c, rfl, hc, rfl⟩
    exact .one hc

/-- A repetition matches all texts of characters of its class, also the empty one. -/
theorem matches_many_iff :
    (many p).Matches text groups ↔ (∀ c ∈ text, p c = true) ∧ groups = [] := by
  constructor
  · rintro ⟨⟩
    exact ⟨‹_›, rfl⟩
  · rintro ⟨htext, rfl⟩
    exact .many htext

/-- One pattern after another matches the texts that can be split between them, in any way. The
groups come in the order of the patterns. -/
theorem matches_append_iff :
    (append first second).Matches text groups ↔ ∃ front back groups' groups'',
      text = front ++ back ∧ groups = groups' ++ groups'' ∧ first.Matches front groups' ∧
        second.Matches back groups'' := by
  constructor
  · rintro ⟨⟩
    exact ⟨_, _, _, _, rfl, rfl, ‹_›, ‹_›⟩
  · rintro ⟨front, back, groups', groups'', rfl, rfl, hfirst, hsecond⟩
    exact .append hfirst hsecond

theorem matches_optional_iff :
    (optional inner).Matches text groups ↔
      inner.Matches text groups ∨ text = [] ∧ groups = [] := by
  constructor
  · intro h
    cases h with
    | taken hinner => exact Or.inl hinner
    | left => exact Or.inr ⟨rfl, rfl⟩
  · rintro (hinner | ⟨rfl, rfl⟩)
    · exact .taken hinner
    · exact .left

/-- An alternative matches what one of the two patterns matches. That the first one is tried first
matters for the groups only. -/
theorem matches_either_iff :
    (either first second).Matches text groups ↔
      first.Matches text groups ∨ second.Matches text groups := by
  constructor
  · intro h
    cases h with
    | first hfirst => exact Or.inl hfirst
    | second hsecond => exact Or.inr hsecond
  · rintro (hfirst | hsecond)
    · exact .first hfirst
    · exact .second hsecond

/-- A group matches what is inside of it, and puts the text that was matched before the groups
inside. -/
theorem matches_group_iff :
    (group inner).Matches text groups ↔ ∃ groups', groups = text :: groups' ∧
      inner.Matches text groups' := by
  constructor
  · rintro ⟨⟩
    exact ⟨_, rfl, ‹_›⟩
  · rintro ⟨groups', rfl, hinner⟩
    exact .group hinner

theorem matches_atLeastOne_iff :
    (atLeastOne p).Matches text groups ↔
      text ≠ [] ∧ (∀ c ∈ text, p c = true) ∧ groups = [] := by
  simp only [atLeastOne, matches_append_iff, matches_one_iff, matches_many_iff]
  constructor
  · rintro ⟨_, back, _, _, rfl, rfl, ⟨c, rfl, hc, rfl⟩, hback, rfl⟩
    exact ⟨by simp, List.forall_mem_cons.mpr ⟨hc, hback⟩, rfl⟩
  · rintro ⟨hne, htext, rfl⟩
    obtain ⟨c, back, rfl⟩ := List.exists_cons_of_ne_nil hne
    obtain ⟨hc, hback⟩ := List.forall_mem_cons.mp htext
    exact ⟨[c], back, [], [], rfl, rfl, ⟨c, rfl, hc, rfl⟩, hback, rfl⟩

/-- A fixed number of repetitions matches the texts of that length. -/
theorem matches_exactly_iff {count : ℕ} :
    (exactly count p).Matches text groups ↔
      text.length = count ∧ (∀ c ∈ text, p c = true) ∧ groups = [] := by
  induction count generalizing text groups with
  | zero =>
      rw [exactly, nothing, matches_many_iff, List.length_eq_zero_iff]
      constructor
      · rintro ⟨htext, rfl⟩
        obtain rfl : text = [] :=
          List.eq_nil_iff_forall_not_mem.mpr fun c hc => Bool.false_ne_true (htext c hc)
        exact ⟨rfl, by simp, rfl⟩
      · rintro ⟨rfl, -, rfl⟩
        exact ⟨by simp, rfl⟩
  | succ count ih =>
      rw [exactly, matches_append_iff]
      constructor
      · rintro ⟨front, back, _, _, rfl, rfl, hfront, hback⟩
        obtain ⟨c, rfl, hc, rfl⟩ := matches_one_iff.mp hfront
        obtain ⟨hlength, hrest, rfl⟩ := ih.mp hback
        exact ⟨congrArg (· + 1) hlength, List.forall_mem_cons.mpr ⟨hc, hrest⟩, rfl⟩
      · rintro ⟨hlength, htext, rfl⟩
        obtain ⟨c, back, rfl⟩ := List.exists_cons_of_length_eq_add_one hlength
        obtain ⟨hc, hback⟩ := List.forall_mem_cons.mp htext
        exact ⟨[c], back, [], [], rfl, rfl, .one hc,
          ih.mpr ⟨Nat.succ.inj hlength, hback, rfl⟩⟩

/-! ### The search -/

/-- A repetition takes characters of its class only, and passes on what follows them. -/
theorem exists_append_of_runMany {next : List Char → Option α} {a : α}
    (h : runMany p next text = some a) :
    ∃ front rest, text = front ++ rest ∧ (∀ c ∈ front, p c = true) ∧ next rest = some a := by
  induction text with
  | nil => exact ⟨[], [], rfl, by simp, h⟩
  | cons c text ih =>
      rw [runMany] at h
      split at h
      · next hc =>
          rcases Option.or_eq_some_iff.mp h with hmore | ⟨-, hdone⟩
          · obtain ⟨front, rest, rfl, hfront, hnext⟩ := ih hmore
            exact ⟨c :: front, rest, rfl, List.forall_mem_cons.mpr ⟨hc, hfront⟩, hnext⟩
          · exact ⟨[], c :: text, rfl, by simp, hdone⟩
      · exact ⟨[], c :: text, rfl, by simp, h⟩

/-- A repetition gives back what is needed for the rest: it takes as much as it can first, but every
other way to split the text is tried too. -/
theorem isSome_runMany {next : List Char → Option α} (hfront : ∀ c ∈ front, p c = true)
    (hnext : (next rest).isSome) : (runMany p next (front ++ rest)).isSome := by
  induction front with
  | nil =>
      cases rest with
      | nil => exact hnext
      | cons c rest =>
          rw [List.nil_append, runMany]
          split
          · rw [Option.isSome_or, hnext, Bool.or_true]
          · exact hnext
  | cons c front ih =>
      obtain ⟨hc, hfront⟩ := List.forall_mem_cons.mp hfront
      rw [List.cons_append, runMany, if_pos hc, Option.isSome_or, ih hfront, Bool.true_or]

/-- **The search is sound**: what it takes is matched, and the function for the rest agrees. By
induction on the pattern, for every such function. -/
theorem exists_matches_of_run {next : List (List Char) → List Char → Option α} {a : α}
    (h : pattern.run next text = some a) :
    ∃ front rest groups, text = front ++ rest ∧ pattern.Matches front groups ∧
      next groups rest = some a := by
  induction pattern generalizing text next with
  | one p =>
      cases text with
      | nil => cases h
      | cons c text =>
          rw [run] at h
          split at h
          · next hc => exact ⟨[c], text, [], rfl, .one hc, h⟩
          · cases h
  | many p =>
      obtain ⟨front, rest, rfl, hfront, hnext⟩ := exists_append_of_runMany h
      exact ⟨front, rest, [], rfl, .many hfront, hnext⟩
  | append first second ihfirst ihsecond =>
      obtain ⟨front, middle, groups, rfl, hfirst, hmiddle⟩ := ihfirst h
      obtain ⟨back, rest, groups', rfl, hsecond, hnext⟩ := ihsecond hmiddle
      exact ⟨front ++ back, rest, groups ++ groups', (List.append_assoc ..).symm,
        .append hfirst hsecond, hnext⟩
  | optional inner ih =>
      rcases Option.or_eq_some_iff.mp h with htaken | ⟨-, hleft⟩
      · obtain ⟨front, rest, groups, rfl, hinner, hnext⟩ := ih htaken
        exact ⟨front, rest, groups, rfl, .taken hinner, hnext⟩
      · exact ⟨[], text, [], rfl, .left, hleft⟩
  | either first second ihfirst ihsecond =>
      rcases Option.or_eq_some_iff.mp h with hfound | ⟨-, hfound⟩
      · obtain ⟨front, rest, groups, rfl, hfirst, hnext⟩ := ihfirst hfound
        exact ⟨front, rest, groups, rfl, .first hfirst, hnext⟩
      · obtain ⟨front, rest, groups, rfl, hsecond, hnext⟩ := ihsecond hfound
        exact ⟨front, rest, groups, rfl, .second hsecond, hnext⟩
  | group inner ih =>
      obtain ⟨front, rest, groups, rfl, hinner, hnext⟩ := ih h
      refine ⟨front, rest, front :: groups, rfl, .group hinner, ?_⟩
      rw [← hnext, List.length_append, Nat.add_sub_cancel, List.take_left]

/-- **The search is complete**: it finds a way to match if there is one with whose groups and rest
the function has a result. -/
theorem isSome_run {next : List (List Char) → List Char → Option α}
    (h : pattern.Matches front groups) (hnext : (next groups rest).isSome) :
    (pattern.run next (front ++ rest)).isSome := by
  induction h generalizing rest next with
  | one hc => simpa [run, hc] using hnext
  | many htext => exact isSome_runMany htext hnext
  | append hfirst hsecond ihfirst ihsecond =>
      rw [List.append_assoc]
      exact ihfirst (ihsecond hnext)
  | taken hinner ih => rw [run, Option.isSome_or, ih hnext, Bool.true_or]
  | left => rw [run, List.nil_append, Option.isSome_or, hnext, Bool.or_true]
  | first hfirst ih => rw [run, Option.isSome_or, ih hnext, Bool.true_or]
  | second hsecond ih => rw [run, Option.isSome_or, ih hnext, Bool.or_true]
  | group hinner ih =>
      refine ih ?_
      rw [List.length_append, Nat.add_sub_cancel, List.take_left]
      exact hnext

/-! ### Whole texts -/

/-- What the search finds is a match. So the search can be trusted whatever the order of its choices
is. -/
theorem matches_of_groups? (h : pattern.groups? text = some groups) :
    pattern.Matches text groups := by
  obtain ⟨front, rest, groups', rfl, hmatches, hrest⟩ := exists_matches_of_run h
  split at hrest
  · next hempty =>
      cases hrest
      rw [List.isEmpty_iff.mp hempty, List.append_nil]
      exact hmatches
  · cases hrest

/-- A text is matched as a whole whenever that is possible. So backtracking misses nothing, and
whether a text is accepted depends on the relation only. -/
theorem isSome_groups?_iff :
    (pattern.groups? text).isSome ↔ ∃ groups, pattern.Matches text groups := by
  constructor
  · intro h
    obtain ⟨groups, hgroups⟩ := Option.isSome_iff_exists.mp h
    exact ⟨groups, matches_of_groups? hgroups⟩
  · rintro ⟨groups, hmatches⟩
    have hrun : (pattern.groups? (text ++ [])).isSome := isSome_run hmatches rfl
    rwa [List.append_nil] at hrun

end Overpass.Text.Pattern
