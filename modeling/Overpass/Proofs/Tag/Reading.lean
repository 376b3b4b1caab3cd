import Mathlib.Data.List.Basic
import Overpass.Tag.Filter

/-!
# Reading tags back

The bracketed form of a filter can be read back, whatever its keys and values hold. Inside of quotes
a quote or a backslash is written with a backslash before it, so the quote that ends a text is the
first one that is not taken by a backslash, and no content can end its own text early. This comes
from the order of the two replacements: were the quotes seen to first, the backslashes before them
would be doubled, and would take each other instead of the quote. After the quotes of a key it is
decided by one character whether a value follows, and after a tag by one character whether another
tag follows.

## Main Definitions

* `Tag.readQuoted`: the text up to the quote that ends it
* `Tag.read?`: the tag that a text starts with
* `TagFilter.read`: the tags that a text starts with

## Main Statements

* `Tag.escape_cons`: what the two replacements come to, character by character
* `TagFilter.read_render`: a filter is read back from its form, and nothing of what follows is taken
* `TagFilter.quoting_reversible`: quoting can be undone, and no content ends its own text
-/

namespace Overpass

namespace Tag

/-- The text up to the quote that ends it, and what follows that quote. A backslash stands for the
character after it. -/
def readQuoted : List Char → Option (List Char × List Char)
  | [] => none
  | '"' :: rest => some ([], rest)
  | '\\' :: c :: rest => (readQuoted rest).map fun read => (c :: read.1, read.2)
  | c :: rest => (readQuoted rest).map fun read => (c :: read.1, read.2)

/-- The two replacements together give every backslash and every quote a backslash before it. The
backslashes that the second one writes come too late for the first one to double them. -/
theorem escape_cons (c : Char) (text : List Char) :
    escape (c :: text) = (if c = '\\' ∨ c = '"' then ['\\', c] else [c]) ++ escape text := by
  have hfirst : escape (c :: text) =
      replace '"' ['\\', '"'] (if c = '\\' then ['\\', '\\'] else [c]) ++ escape text := by
    simp only [escape, replace, List.flatMap_cons, List.flatMap_append]
  rw [hfirst]
  by_cases hbackslash : c = '\\'
  · subst hbackslash
    rfl
  · by_cases hquote : c = '"' <;> simp [replace, hbackslash, hquote]

/-- A character is read back from what is written for it, and reading goes on after it. This is the
step by which whole texts are read back. -/
theorem readQuoted_escape_cons (c : Char) (text rest : List Char) :
    readQuoted (escape (c :: text) ++ rest) =
      (readQuoted (escape text ++ rest)).map fun read => (c :: read.1, read.2) := by
  rw [escape_cons, List.append_assoc]
  split
  · rfl
  · next hc =>
      rw [not_or] at hc
      simp [readQuoted, hc.1, hc.2]

/-- An escaped text is read back up to the quote after it, whatever it holds, quotes and backslashes
included. -/
theorem readQuoted_escape (text rest : List Char) :
    readQuoted (escape text ++ '"' :: rest) = some (text, rest) := by
  induction text with
  | nil => rfl
  | cons c text ih => rw [readQuoted_escape_cons, ih, Option.map_some]

/-- In the other order, a quote would end its own text: the backslash before it would be doubled. -/
example : readQuoted (replace '\\' ['\\', '\\'] (replace '"' ['\\', '"'] ['"']) ++ ['"']) =
    some (['\\'], ['"']) := rfl

/-- No quote inside of the quotes ends the text: all quotes in it have an odd number of backslashes
in front of them. -/
theorem readQuoted_eq_none_of_prefix {text front : List Char} (h : front <+: escape text) :
    readQuoted front = none := by
  induction text generalizing front with
  | nil =>
      rw [List.prefix_nil.mp h]
      rfl
  | cons c text ih =>
      rw [escape_cons] at h
      split at h
      -- Where a backslash was put before the character, it takes the character with it.
      · rcases List.prefix_cons_iff.mp h with rfl | ⟨front, rfl, hfront⟩
        · rfl
        · rcases List.prefix_cons_iff.mp hfront with rfl | ⟨rest, rfl, hrest⟩
          · rfl
          · simp [readQuoted, ih hrest]
      · next hc =>
          rw [not_or] at hc
          rcases List.prefix_cons_iff.mp h with rfl | ⟨rest, rfl, hrest⟩
          · rfl
          · simp [readQuoted, hc.1, hc.2, ih hrest]

/-- Reading a quoted text leaves less to read. This is why reading tags one after the other comes to
an end. -/
theorem length_readQuoted_lt {cs text rest : List Char} (h : readQuoted cs = some (text, rest)) :
    rest.length < cs.length := by
  fun_induction readQuoted cs generalizing text with
  | case1 => cases h
  | case2 tail =>
      cases h
      exact Nat.lt_succ_self _
  | case3 c tail ih =>
      obtain ⟨⟨text, rest⟩, hread, heq⟩ := Option.map_eq_some_iff.mp h
      cases heq
      exact Nat.lt_succ_of_lt (Nat.lt_succ_of_lt (ih hread))
  | case4 c tail _ _ ih =>
      obtain ⟨⟨text, rest⟩, hread, heq⟩ := Option.map_eq_some_iff.mp h
      cases heq
      exact Nat.lt_succ_of_lt (ih hread)

/-- The tag that a text starts with, and what follows it: a bracket, a key in quotes, perhaps a
value in quotes, and a bracket. -/
def read? : List Char → Option (Tag × List Char)
  | '[' :: '"' :: cs => do
    let (key, cs) ← readQuoted cs
    match cs with
    | ']' :: rest => some (⟨String.ofList key, none⟩, rest)
    | '=' :: '"' :: cs => do
      let (value, cs) ← readQuoted cs
      match cs with
      | ']' :: rest => some (⟨String.ofList key, some (String.ofList value)⟩, rest)
      | _ => none
    | _ => none
  | _ => none

theorem toList_quote (text : String) :
    (quote text).toList = '"' :: (escape text.toList ++ ['"']) := by
  simp [quote]

/-- A tag is read back from its form, whatever follows. Its closing bracket is found after the last
quote, so brackets in a key or value do no harm. -/
theorem read?_render (tag : Tag) (rest : List Char) :
    read? (tag.render.toList ++ rest) = some (tag, rest) := by
  obtain ⟨key, value⟩ := tag
  cases value with
  | none => simp [render, toList_quote, read?, readQuoted_escape]
  | some value => simp [render, toList_quote, read?, readQuoted_escape]

theorem length_read?_lt {cs rest : List Char} {tag : Tag} (h : read? cs = some (tag, rest)) :
    rest.length < cs.length := by
  unfold read? at h
  split at h
  · obtain ⟨⟨key, afterKey⟩, hkey, h⟩ := Option.bind_eq_some_iff.mp h
    have hlength := length_readQuoted_lt hkey
    dsimp only at h
    split at h
    · cases h
      simp only [List.length_cons] at hlength ⊢
      omega
    · obtain ⟨⟨value, afterValue⟩, hvalue, h⟩ := Option.bind_eq_some_iff.mp h
      have hlength' := length_readQuoted_lt hvalue
      dsimp only at h
      split at h
      · cases h
        simp only [List.length_cons] at hlength hlength' ⊢
        omega
      · cases h
    · cases h
  · cases h

/-- Only what starts with a bracket is a tag, and so tags end where something else follows. -/
theorem read?_eq_none {cs : List Char} (h : cs.head? ≠ some '[') : read? cs = none := by
  unfold read?
  split
  · exact absurd rfl h
  · rfl

end Tag

namespace TagFilter

/-- The tags that a text starts with, and what follows them. -/
def readTags (cs : List Char) : List Tag × List Char :=
  match _hread : Tag.read? cs with
  | none => ([], cs)
  | some (tag, rest) =>
    let (tags, last) := readTags rest
    (tag :: tags, last)
termination_by cs.length
decreasing_by exact Tag.length_read?_lt ‹_›

/-- The filter that a text starts with, and what follows it. Tags are read as long as brackets
open. -/
def read (cs : List Char) : TagFilter × List Char :=
  let (tags, rest) := readTags cs
  (⟨tags⟩, rest)

theorem readTags_of_none {cs : List Char} (h : Tag.read? cs = none) : readTags cs = ([], cs) := by
  rw [readTags]
  split
  · rfl
  · next hread =>
      rw [h] at hread
      cases hread

theorem readTags_of_some {cs rest : List Char} {tag : Tag} (h : Tag.read? cs = some (tag, rest)) :
    readTags cs = (tag :: (readTags rest).1, (readTags rest).2) := by
  rw [readTags]
  split
  · next hread =>
      rw [h] at hread
      cases hread
  · next hread =>
      rw [h] at hread
      cases hread
      rfl

/-- The form of a filter is those of its tags, with nothing in between. -/
theorem toList_render (filter : TagFilter) :
    filter.render.toList = filter.tags.flatMap fun tag => tag.render.toList := by
  rw [render, String.toList_join, List.flatMap_map]

/-- **A filter is read back from its form**, and of what follows nothing is taken, unless that looks
like a further tag. -/
theorem read_render (filter : TagFilter) {rest : List Char} (hrest : rest.head? ≠ some '[') :
    read (filter.render.toList ++ rest) = (filter, rest) := by
  obtain ⟨tags⟩ := filter
  have htags : readTags ((tags.flatMap fun tag => tag.render.toList) ++ rest) = (tags, rest) := by
    induction tags with
    | nil => exact readTags_of_none (Tag.read?_eq_none hrest)
    | cons tag tags ih =>
        rw [List.flatMap_cons, List.append_assoc, readTags_of_some (Tag.read?_render tag _), ih]
  rw [read, toList_render, htags]

/-- Filters with the same form are the same, the order of their tags included. -/
theorem render_injective : Function.Injective render := by
  intro filter other h
  have hread : read (filter.render.toList ++ []) = (filter, []) :=
    read_render filter (by decide)
  rw [h, read_render other (by decide)] at hread
  exact (congrArg Prod.fst hread).symm

/-- **Quoting is safe and can be undone**, whatever characters a filter holds. A filter is read back
from its form, with nothing taken of a text that follows, unless that starts like a further tag; so
filters with the same form are the same. A text between quotes is read up to the quote that was put
behind it, and no beginning of what stands inside of the quotes can be taken for the whole. -/
theorem quoting_reversible :
    (∀ (filter : TagFilter) (rest : String), rest.toList.head? ≠ some '[' →
      read (filter.render ++ rest).toList = (filter, rest.toList)) ∧
    Function.Injective render ∧
    (∀ text rest : String, Tag.readQuoted ((Tag.quote text ++ rest).toList.drop 1) =
      some (text.toList, rest.toList)) ∧
    ∀ (text : String) (front : List Char), front <+: Tag.escape text.toList →
      Tag.readQuoted front = none := by
  refine ⟨fun filter rest hrest => ?_, render_injective, fun text rest => ?_, fun text front => ?_⟩
  · rw [String.toList_append]
    exact read_render filter hrest
  · rw [String.toList_append, Tag.toList_quote, List.cons_append, List.drop_one, List.tail_cons,
      List.append_assoc]
    exact Tag.readQuoted_escape text.toList rest.toList
  · exact Tag.readQuoted_eq_none_of_prefix

/-- Tags that look like the end of a tag, like a value, and like an escaped quote. -/
def awkward : TagFilter := ⟨[⟨"a\"][\"b", some "\\"⟩, ⟨"=\"\n", none⟩, ⟨"", some "\\\""⟩]⟩

/-- Awkward tags are read back, and an escaped quote does not end its text. -/
theorem quoting_reversible_awkward :
    "->.x;".toList.head? ≠ some '[' ∧
    read (awkward.render ++ "->.x;").toList = (awkward, "->.x;".toList) ∧
    ['\\', '\\', '\\', '"'] <+: Tag.escape "\\\"]".toList ∧
    Tag.readQuoted ['\\', '\\', '\\', '"'] = none := by
  have hrest : "->.x;".toList.head? ≠ some '[' := by decide
  have hfront : ['\\', '\\', '\\', '"'] <+: Tag.escape "\\\"]".toList := by decide
  obtain ⟨hread, -, -, hfronts⟩ := quoting_reversible
  exact ⟨hrest, hread awkward _ hrest, hfront, hfronts _ _ hfront⟩

end TagFilter

end Overpass
