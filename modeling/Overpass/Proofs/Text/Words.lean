import Mathlib.Data.List.Basic
import Mathlib.Data.List.TakeWhile
import Overpass.Text.Words

/-!
# Words and what stands between them

The words of a text do not tell how they are separated: any run of separators is as good as any
other, and so are separators before the first word and after the last one. Here this is said the
other way round, by what texts a list of words is spelled in.

## Main Definitions

* `Text.Spells`: whether a text consists of the given words and of separators around them
* `Text.AllBlank`, `Text.IsTrimmed`: texts of blanks alone, and texts without blanks at their ends

## Main Statements

* `takeWhile_append_of_head?`: what consists of some characters ends where another one follows
* `Text.words_append_separator`: a text can be split into words on both sides of a separator apart
* `Text.words_eq_iff`: the words of a text are the words that it spells
* `Text.notMem_of_mem_splitOn`: what stands between two separators holds none
* `Text.IsTrimmed.trim_append`, `Text.trim_append`: blanks around a text are what is trimmed
* `Text.trim_eq_self`: a text without a blank at either end is trimmed already
-/

namespace Overpass

/-! ### Runs of characters -/

/-- What consists of some characters ends where another one follows. This is how a name is told from
the mark after it. -/
theorem takeWhile_append_of_head? {p : Char → Bool} {inside rest : List Char}
    (hinside : ∀ c ∈ inside, p c = true) (hrest : ∀ c ∈ rest.head?, p c = false) :
    (inside ++ rest).takeWhile p = inside ∧ (inside ++ rest).dropWhile p = rest := by
  rw [List.takeWhile_append_of_pos hinside, List.dropWhile_append_of_pos hinside]
  cases rest with
  | nil => simp
  | cons c rest =>
      have hc := hrest c rfl
      simp [hc]

/-- Every text starts with a run of some characters, and another one follows, if anything does. -/
theorem exists_append_of_head? (p : Char → Bool) (text : List Char) :
    ∃ inside rest, text = inside ++ rest ∧ (∀ c ∈ inside, p c = true) ∧
      ∀ c ∈ rest.head?, p c = false := by
  refine ⟨text.takeWhile p, text.dropWhile p, List.takeWhile_append_dropWhile.symm, ?_, ?_⟩
  · exact List.all_eq_true.mp List.all_takeWhile
  · intro c hc
    have hhead := List.head?_dropWhile_not p text
    rw [hc] at hhead
    simpa using hhead

namespace Text

variable {separates : Char → Bool} {gap word rest text : List Char}

/-- Whether a text consists of the given words and of separators around them: any number of
separators before the first and after the last word, and at least one between two words. -/
inductive Spells (separates : Char → Bool) : List (List Char) → List Char → Prop
  /-- Separators alone spell no word. -/
  | none {gap : List Char} (hgap : ∀ c ∈ gap, separates c = true) : Spells separates [] gap
  /-- A first word stands after separators, and a separator follows unless the text ends. -/
  | word {gap word rest : List Char} {later : List (List Char)}
      (hgap : ∀ c ∈ gap, separates c = true) (hword : ∀ c ∈ word, separates c = false)
      (hne : word ≠ []) (hend : ∀ c ∈ rest.head?, separates c = true)
      (hlater : Spells separates later rest) :
      Spells separates (word :: later) (gap ++ word ++ rest)

/-! ### The words of a text -/

/-- The words of a text can be found on both sides of a separator apart, since no word reaches over
one. -/
theorem words_append_separator {c : Char} (hc : separates c = true) (before after : List Char) :
    words separates (before ++ c :: after) = words separates before ++ words separates after := by
  unfold words
  rw [List.splitOnP_append_cons before after hc, List.filter_append]

/-- Separators before a text belong to no word of it, however many there are. -/
theorem words_gap_append (hgap : ∀ c ∈ gap, separates c = true) (text : List Char) :
    words separates (gap ++ text) = words separates text := by
  induction gap with
  | nil => rfl
  | cons c gap ih =>
      obtain ⟨hc, hgap⟩ := List.forall_mem_cons.mp hgap
      exact (words_append_separator hc [] (gap ++ text)).trans (ih hgap)

theorem words_eq_nil (hgap : ∀ c ∈ gap, separates c = true) : words separates gap = [] := by
  rw [← gap.append_nil, words_gap_append hgap]
  rfl

theorem words_eq_singleton (hne : word ≠ []) (hword : ∀ c ∈ word, separates c = false) :
    words separates word = [word] := by
  rw [words, List.splitOnP_eq_singleton hword]
  simp [hne]

/-- A word ends where a separator follows. The word must not be empty, since runs of separators
count as one. -/
theorem words_word_append (hne : word ≠ []) (hword : ∀ c ∈ word, separates c = false)
    (hend : ∀ c ∈ rest.head?, separates c = true) :
    words separates (word ++ rest) = word :: words separates rest := by
  cases rest with
  | nil => rw [List.append_nil, words_eq_singleton hne hword, words_eq_nil (by simp)]
  | cons c rest =>
      have hc : separates c = true := hend c rfl
      rw [words_append_separator hc, words_eq_singleton hne hword, List.singleton_append]
      exact congrArg (word :: ·) (words_append_separator hc [] rest).symm

/-- What is joined by a separator has the words of its parts, one part after the other. -/
theorem words_intercalate {c : Char} (hc : separates c = true) (parts : List (List Char)) :
    words separates ([c].intercalate parts) = parts.flatMap (words separates) := by
  induction parts with
  | nil => rfl
  | cons part later ih =>
      cases later with
      | nil => simp
      | cons next later =>
          rw [List.intercalate_cons_cons, List.append_assoc, List.singleton_append,
            words_append_separator hc, ih]
          rfl

/-- What stands between two separators holds none. -/
theorem notMem_of_mem_splitOn {c : Char} {part : List Char} (h : part ∈ text.splitOn c) :
    c ∉ part := by
  induction text generalizing part with
  | nil =>
      rw [List.splitOn_nil, List.mem_singleton] at h
      rw [h]
      exact List.not_mem_nil
  | cons d text ih =>
      rw [List.splitOn_cons_eq_if_modifyHead] at h
      split at h
      · rcases List.mem_cons.mp h with rfl | h
        · exact List.not_mem_nil
        · exact ih h
      · next hd =>
          obtain ⟨first, later, hsplit⟩ :=
            List.exists_cons_of_ne_nil (List.splitOn_ne_nil c text)
          rw [hsplit] at h ih
          rcases List.mem_cons.mp h with rfl | h
          · rintro (_ | ⟨_, hmem⟩)
            · exact hd (beq_self_eq_true _)
            · exact ih List.mem_cons_self hmem
          · exact ih (List.mem_cons_of_mem first h)

/-- A text that spells some words, with any separators between and around them, has just these
words. -/
theorem Spells.words_eq {expected : List (List Char)} (h : Spells separates expected text) :
    words separates text = expected := by
  induction h with
  | none hgap => exact words_eq_nil hgap
  | word hgap hword hne hend _ ih =>
      rw [List.append_assoc, words_gap_append hgap, words_word_append hne hword hend, ih]

/-- Every text spells its own words: it starts with separators and a word, unless it is blank, and
the rest is shorter. -/
theorem spells_words (separates : Char → Bool) (text : List Char) :
    Spells separates (words separates text) text := by
  induction hlength : text.length using Nat.strongRecOn generalizing text with
  | ind n ih =>
  obtain ⟨gap, body, rfl, hgap, hbody⟩ := exists_append_of_head? separates text
  cases body with
  | nil =>
      rw [List.append_nil, words_eq_nil hgap]
      exact .none hgap
  | cons c body =>
      obtain ⟨word, rest, hsplit, hword, hend⟩ :=
        exists_append_of_head? (fun c => !separates c) (c :: body)
      have hc : separates c = false := hbody c rfl
      have hne : word ≠ [] := by
        rintro rfl
        rw [List.nil_append] at hsplit
        simp [← hsplit, hc] at hend
      have hword' : ∀ c ∈ word, separates c = false := fun c hmem => by simpa using hword c hmem
      have hend' : ∀ c ∈ rest.head?, separates c = true := fun c hmem => by simpa using hend c hmem
      have hshorter : rest.length < n := by
        have hpositive := List.length_pos_of_ne_nil hne
        rw [← hlength, hsplit, List.length_append, List.length_append]
        omega
      rw [hsplit, words_gap_append hgap, words_word_append hne hword' hend', ← List.append_assoc]
      exact .word hgap hword' hne hend' (ih rest.length hshorter rest rfl)

/-- **The words of a text are the words that it spells.** Reading a text comes down to this: what is
printed with one separator is read with any others. -/
theorem words_eq_iff {expected : List (List Char)} :
    words separates text = expected ↔ Spells separates expected text := by
  constructor
  · rintro rfl
    exact spells_words separates text
  · exact Spells.words_eq

/-! ### Ends of a text -/

/-- What is dropped from the end of a text ends at a character that is kept. -/
theorem dropEndWhile_append {p : Char → Bool} {kept dropped : List Char}
    (hdropped : ∀ c ∈ dropped, p c = true) (hkept : ∀ c ∈ kept.getLast?, p c = false) :
    dropEndWhile p (kept ++ dropped) = kept := by
  have hreversed := (takeWhile_append_of_head? (fun c hc => hdropped c (List.mem_reverse.mp hc))
    (by rwa [List.head?_reverse] : ∀ c ∈ kept.reverse.head?, p c = false)).2
  rw [dropEndWhile, List.reverse_append, hreversed, List.reverse_reverse]

/-- Whether a text consists of blanks, if of anything. The empty text does. -/
def AllBlank (text : List Char) : Prop := ∀ c ∈ text, isBlank c = true

instance (text : List Char) : Decidable (AllBlank text) :=
  decidable_of_iff (text.all isBlank = true) List.all_eq_true

/-- Whether a text neither starts nor ends with a blank, as what is left of a text that is
trimmed. -/
structure IsTrimmed (text : List Char) : Prop where
  head : ∀ c ∈ text.head?, isBlank c = false
  last : ∀ c ∈ text.getLast?, isBlank c = false

variable {front back : List Char}

theorem allBlank_nil : AllBlank [] := fun _ hc => absurd hc List.not_mem_nil

theorem allBlank_append : AllBlank (front ++ back) ↔ AllBlank front ∧ AllBlank back := by
  simp only [AllBlank, List.forall_mem_append]

theorem not_allBlank_of_mem {c : Char} (hc : c ∈ text) (hblank : isBlank c = false) :
    ¬ AllBlank text := by
  intro hall
  rw [hall c hc] at hblank
  cases hblank

/-- A text around one that is not blank is not blank. So blanks that are added around a key or value
do not change whether it is missing. -/
theorem not_allBlank_append (h : ¬ AllBlank text) : ¬ AllBlank (front ++ text ++ back) :=
  fun hall => h (allBlank_append.mp (allBlank_append.mp hall).1).2

/-- The blanks around a text without blanks at its ends are what is trimmed. -/
theorem IsTrimmed.trim_append (h : IsTrimmed text) (hfront : AllBlank front)
    (hback : AllBlank back) : trim (front ++ text ++ back) = text := by
  have hstart : trimStart (front ++ text ++ back) = trimStart (text ++ back) := by
    rw [List.append_assoc, trimStart, List.dropWhile_append_of_pos hfront, trimStart]
  rw [trim, hstart]
  cases text with
  | nil =>
      have hnil : trimStart back = [] := List.dropWhile_eq_nil_iff.mpr hback
      rw [List.nil_append, hnil]
      rfl
  | cons c text =>
      have hc : ¬ isBlank c = true := by simpa using h.head
      have hkept : trimStart (c :: text ++ back) = c :: text ++ back :=
        List.dropWhile_cons_of_neg hc
      rw [hkept]
      exact dropEndWhile_append hback h.last

/-- Only the ends of a text count: what stands in the middle may be blank. -/
theorem IsTrimmed.append (hfront : IsTrimmed front) (hback : IsTrimmed back) (hne : front ≠ [])
    (hne' : back ≠ []) (middle : List Char) : IsTrimmed (front ++ middle ++ back) where
  head := by
    rw [List.append_assoc, List.head?_append_of_ne_nil _ hne]
    exact hfront.head
  last := by
    rw [List.getLast?_append_of_ne_nil _ hne']
    exact hback.last

/-- A text without a blank at either end is trimmed already. A blank inside of it stays. -/
theorem trim_eq_self (hhead : ∀ c ∈ text.head?, isBlank c = false)
    (hlast : ∀ c ∈ text.getLast?, isBlank c = false) : trim text = text := by
  have h : trim ([] ++ text ++ []) = text :=
    IsTrimmed.trim_append ⟨hhead, hlast⟩ allBlank_nil allBlank_nil
  rwa [List.append_nil] at h

/-- Every text is a text without blanks at its ends, with blanks around it. -/
theorem exists_append_isTrimmed (text : List Char) :
    ∃ front body back, text = front ++ body ++ back ∧ AllBlank front ∧ IsTrimmed body ∧
      AllBlank back := by
  obtain ⟨front, rest, rfl, hfront, hrest⟩ := exists_append_of_head? isBlank text
  obtain ⟨back, body, hreverse, hback, hbody⟩ := exists_append_of_head? isBlank rest.reverse
  have hsplit : rest = body.reverse ++ back.reverse := by
    rw [← List.reverse_append, ← hreverse, List.reverse_reverse]
  refine ⟨front, body.reverse, back.reverse, by rw [hsplit, List.append_assoc], hfront,
    ⟨fun c hc => hrest c ?_, ?_⟩, fun c hc => hback c (List.mem_reverse.mp hc)⟩
  · rw [hsplit, List.head?_append, Option.mem_def.mp hc, Option.some_or]
    rfl
  · rwa [List.getLast?_reverse]

/-- Every text consists of what is left when it is trimmed and of blanks around that. So a text can
be replaced by a trimmed one with blanks added to it. -/
theorem exists_append_trim (text : List Char) :
    ∃ front back, text = front ++ trim text ++ back ∧ AllBlank front ∧ AllBlank back := by
  obtain ⟨front, body, back, rfl, hfront, hbody, hback⟩ := exists_append_isTrimmed text
  exact ⟨front, back, by rw [hbody.trim_append hfront hback], hfront, hback⟩

theorem isTrimmed_trim (text : List Char) : IsTrimmed (trim text) := by
  obtain ⟨front, body, back, rfl, hfront, hbody, hback⟩ := exists_append_isTrimmed text
  rwa [hbody.trim_append hfront hback]

/-- Blanks around a text do not count when it is trimmed, however many there are and of whatever
sort. -/
theorem trim_append (hfront : AllBlank front) (hback : AllBlank back) (text : List Char) :
    trim (front ++ text ++ back) = trim text := by
  obtain ⟨front', body, back', rfl, hfront', hbody, hback'⟩ := exists_append_isTrimmed text
  have hsplit : front ++ (front' ++ body ++ back') ++ back =
      (front ++ front') ++ body ++ (back' ++ back) := by
    simp only [List.append_assoc]
  rw [hsplit, hbody.trim_append (allBlank_append.mpr ⟨hfront, hfront'⟩)
    (allBlank_append.mpr ⟨hback', hback⟩), hbody.trim_append hfront' hback']

theorem trim_append_right (hback : AllBlank back) (text : List Char) :
    trim (text ++ back) = trim text :=
  trim_append allBlank_nil hback text

/-- What is left of a text when it is trimmed stands in it. So trimming brings in no equals sign and
no comma. -/
theorem mem_of_mem_trim {c : Char} (h : c ∈ trim text) : c ∈ text := by
  obtain ⟨front, body, back, rfl, hfront, hbody, hback⟩ := exists_append_isTrimmed text
  rw [hbody.trim_append hfront hback] at h
  exact List.mem_append_left _ (List.mem_append_right _ h)

/-- Nothing is left of a text if and only if it is blank. So a side that is missing can be told
before or after trimming. -/
theorem trim_eq_nil_iff : trim text = [] ↔ AllBlank text := by
  constructor
  · intro hnil
    obtain ⟨front, back, htext, hfront, hback⟩ := exists_append_trim text
    rw [htext, hnil, List.append_nil]
    exact allBlank_append.mpr ⟨hfront, hback⟩
  · intro hblank
    have h := trim_append_right hblank []
    rwa [List.nil_append] at h

/-- Of a text that is not blank something is left, and it does not end in a blank. -/
theorem trim_of_not_allBlank (h : ¬ AllBlank text) :
    trim text ≠ [] ∧ ∃ c ∈ (trim text).getLast?, isBlank c = false := by
  have hne : trim text ≠ [] := fun hnil => h (trim_eq_nil_iff.mp hnil)
  have hlast := List.getLast?_eq_some_getLast hne
  exact ⟨hne, _, hlast, (isTrimmed_trim text).last _ hlast⟩

end Text

end Overpass
