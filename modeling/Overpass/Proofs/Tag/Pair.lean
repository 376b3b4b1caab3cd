import Overpass.Proofs.Tag.Spelling

/-!
# Pairs and tokens

The pair of a key and an optional value can be spelled as a token, and the token can be read instead
of the pair. If there is no equals sign in the pair, that comes to the same, but for two things. One
is harmless: a pair keeps the blanks around its key and its value, and a token does not. The other
one concerns values of nothing but blanks. A token with such a value is refused, like one with such
a key. A pair with such a key is refused too, since the key is trimmed before it is found to be
empty; but the value is not trimmed first, so a value of blanks passes for one that is not empty.

## Main Definitions

* `Tag.trimmed`, `TagFilter.trimmed`: a tag or a filter without the blanks around its texts
* `Tag.IsSignFree`, `Tag.HasProperValue`: pairs without equals signs, and without blank values

## Main Statements

* `Tag.parse_tokenText_eq_ok_iff`: what is read from the token of a pair
* `TagFilter.ofTokens_tokenText_eq_ok_iff`: what is read from the tokens of a list of pairs
* `TagFilter.pair_and_token`: a pair and its token compared
-/

namespace Overpass

namespace Tag

/-- A tag without the blanks around its key and its value. -/
def trimmed (tag : Tag) : Tag where
  key := String.ofList (Text.trim tag.key.toList)
  value := tag.value.map fun value => String.ofList (Text.trim value.toList)

/-- Whether there is no equals sign in the texts of a pair. A token has one between its sides, and
another one would be refused. -/
structure IsSignFree (pair : String × Option String) : Prop where
  key : '=' ∉ pair.1.toList
  value : ∀ value ∈ pair.2, '=' ∉ value.toList

/-- Whether there is more than blanks in the value of a pair, if it has one. This is what a token is
tested for, and a pair is not. -/
def HasProperValue (pair : String × Option String) : Prop :=
  ∀ value ∈ pair.2, ¬ Text.AllBlank value.toList

variable {pair : String × Option String} {tag : Tag}

/-- A pair is accepted if its key is not blank and its value, if it has one, is not empty. Neither
is trimmed, in the test or in the tag. -/
theorem ofPair_eq_ok_iff :
    ofPair pair = .ok tag ↔
      ¬ Text.AllBlank pair.1.toList ∧ pair.2 ≠ some "" ∧ tag = ⟨pair.1, pair.2⟩ := by
  have hkey : (Text.trim pair.1.toList).isEmpty = true ↔ Text.AllBlank pair.1.toList := by
    rw [List.isEmpty_iff, Text.trim_eq_nil_iff]
  unfold ofPair ofPair?
  split_ifs with hrefused
  · rw [Bool.or_eq_true, hkey, beq_iff_eq] at hrefused
    constructor
    · rintro ⟨⟩
    · rintro ⟨hkey, hvalue, -⟩
      exact absurd hrefused (not_or.mpr ⟨hkey, hvalue⟩)
  · rw [Bool.or_eq_true, hkey, beq_iff_eq, not_or] at hrefused
    constructor
    · rintro ⟨⟩
      exact ⟨hrefused.1, hrefused.2, rfl⟩
    · rintro ⟨-, -, rfl⟩
      rfl

/-- The token of a pair without equals signs is one if there is more than blanks in both texts. The
equals sign between them is the only one then. -/
theorem isToken_tokenText_iff (h : IsSignFree pair) :
    IsToken (tokenText pair.1 pair.2).toList ↔
      ¬ Text.AllBlank pair.1.toList ∧ HasProperValue pair := by
  obtain ⟨key, value⟩ := pair
  cases value with
  | none => simp [tokenText, HasProperValue, isToken_iff_of_notMem h.key]
  | some value =>
      have htext : (tokenText key (some value)).toList = key.toList ++ '=' :: value.toList := by
        simp [tokenText]
      simp [htext, HasProperValue, isToken_append_iff h.key, h.value value rfl]

/-- The sides of the token of a pair are its trimmed key and value, if the key has no equals
sign. -/
theorem ofSides_tokenText (h : IsSignFree pair) :
    ofSides (tokenText pair.1 pair.2).toList = trimmed ⟨pair.1, pair.2⟩ := by
  obtain ⟨key, value⟩ := pair
  cases value with
  | none => simp [tokenText, trimmed, ofSides_of_notMem h.key]
  | some value =>
      have htext : (tokenText key (some value)).toList = key.toList ++ '=' :: value.toList := by
        simp [tokenText]
      simp [htext, trimmed, ofSides_append h.key]

/-- **The token of a pair** without equals signs is read as the trimmed tag of the pair, unless the
value is blank. -/
theorem parse_tokenText_eq_ok_iff (h : IsSignFree pair) :
    parse (tokenText pair.1 pair.2) = .ok tag ↔
      HasProperValue pair ∧ ∃ given, ofPair pair = .ok given ∧ given.trimmed = tag := by
  rw [parse_eq_ok_iff, isToken_tokenText_iff h, ofSides_tokenText h]
  constructor
  · rintro ⟨⟨hkey, hproper⟩, rfl⟩
    refine ⟨hproper, _, ofPair_eq_ok_iff.mpr ⟨hkey, fun hempty => ?_, rfl⟩, rfl⟩
    exact hproper "" hempty Text.allBlank_nil
  · rintro ⟨hproper, given, hgiven, rfl⟩
    obtain ⟨hkey, -, rfl⟩ := ofPair_eq_ok_iff.mp hgiven
    exact ⟨⟨hkey, hproper⟩, rfl⟩

end Tag

namespace TagFilter

/-- A filter without the blanks around its keys and values. -/
def trimmed (filter : TagFilter) : TagFilter := ⟨filter.tags.map Tag.trimmed⟩

variable {pairs : List (String × Option String)} {pair : String × Option String}
  {filter : TagFilter}

/-- Pairs are read one by one, and all of them have to be accepted. -/
theorem ofPairs_eq_ok_iff :
    ofPairs pairs = .ok filter ↔
      List.Forall₂ (fun pair tag => Tag.ofPair pair = .ok tag) pairs filter.tags :=
  mk_mapM_eq_ok_iff

theorem ofPairs_singleton_eq_ok_iff :
    ofPairs [pair] = .ok filter ↔ ∃ given, Tag.ofPair pair = .ok given ∧ filter = ⟨[given]⟩ := by
  obtain ⟨tags⟩ := filter
  simp [ofPairs_eq_ok_iff, List.forall₂_cons_left_iff]

/-- Tokens are read item by item, and so are pairs. So the two readings of a list can be compared at
each of its items. -/
theorem forall₂_parse_tokenText_iff {tags : List Tag} (h : ∀ pair ∈ pairs, Tag.IsSignFree pair) :
    List.Forall₂ (fun pair tag => Tag.parse (Tag.tokenText pair.1 pair.2) = .ok tag) pairs tags ↔
      (∀ pair ∈ pairs, Tag.HasProperValue pair) ∧ ∃ givens,
        List.Forall₂ (fun pair given => Tag.ofPair pair = .ok given) pairs givens ∧
          givens.map Tag.trimmed = tags := by
  induction pairs generalizing tags with
  | nil => simp [eq_comm]
  | cons pair pairs ih =>
      obtain ⟨hpair, hpairs⟩ := List.forall_mem_cons.mp h
      rw [List.forall_mem_cons]
      constructor
      · intro hall
        obtain ⟨tag, tags, hparse, hread, rfl⟩ := List.forall₂_cons_left_iff.mp hall
        obtain ⟨hproper, given, hgiven, rfl⟩ := (Tag.parse_tokenText_eq_ok_iff hpair).mp hparse
        obtain ⟨hpropers, givens, hgivens, rfl⟩ := (ih hpairs).mp hread
        exact ⟨⟨hproper, hpropers⟩, given :: givens, .cons hgiven hgivens, rfl⟩
      · rintro ⟨⟨hproper, hpropers⟩, _, hread, rfl⟩
        obtain ⟨given, givens, hgiven, hgivens, rfl⟩ := List.forall₂_cons_left_iff.mp hread
        exact .cons ((Tag.parse_tokenText_eq_ok_iff hpair).mpr ⟨hproper, given, hgiven, rfl⟩)
          ((ih hpairs).mpr ⟨hpropers, givens, hgivens, rfl⟩)

/-- **The tokens of a list of pairs** without equals signs are read as the trimmed filter of the
pairs, unless one of the values is blank. -/
theorem ofTokens_tokenText_eq_ok_iff (h : ∀ pair ∈ pairs, Tag.IsSignFree pair) :
    ofTokens (pairs.map fun pair => Tag.tokenText pair.1 pair.2) = .ok filter ↔
      (∀ pair ∈ pairs, Tag.HasProperValue pair) ∧
        ∃ given, ofPairs pairs = .ok given ∧ given.trimmed = filter := by
  rw [ofTokens_eq_ok_iff, List.forall₂_map_left_iff, forall₂_parse_tokenText_iff h]
  refine and_congr_right fun _ => ?_
  constructor
  · rintro ⟨givens, hgivens, htags⟩
    exact ⟨⟨givens⟩, ofPairs_eq_ok_iff.mpr hgivens, congrArg mk htags⟩
  · rintro ⟨given, hgiven, rfl⟩
    exact ⟨given.tags, ofPairs_eq_ok_iff.mp hgiven, rfl⟩

/-- **A pair and its token compared**, for a pair without equals signs. The token is accepted if and
only if the pair is and its value, if it has one, is not blank; what they give is equal but for
blanks around the key and the value; and what is wrong with the pair is wrong with the token. -/
theorem pair_and_token {key : String} {value : Option String} (hkey : '=' ∉ key.toList)
    (hvalue : ∀ text ∈ value, '=' ∉ text.toList) :
    ((∃ tag, Tag.parse (Tag.tokenText key value) = .ok tag) ↔
      (∃ filter, ofPairs [(key, value)] = .ok filter) ∧
        ∀ text ∈ value, ¬ Text.AllBlank text.toList) ∧
    (∀ filter tag, ofPairs [(key, value)] = .ok filter →
      Tag.parse (Tag.tokenText key value) = .ok tag → filter.trimmed = ⟨[tag]⟩) ∧
    ∀ cause, ofPairs [(key, value)] = .error cause →
      Tag.parse (Tag.tokenText key value) = .error cause := by
  have hsignFree : Tag.IsSignFree (key, value) := ⟨hkey, hvalue⟩
  refine ⟨?_, ?_, ?_⟩
  · constructor
    · rintro ⟨tag, hparse⟩
      obtain ⟨hproper, given, hgiven, -⟩ := (Tag.parse_tokenText_eq_ok_iff hsignFree).mp hparse
      exact ⟨⟨⟨[given]⟩, ofPairs_singleton_eq_ok_iff.mpr ⟨given, hgiven, rfl⟩⟩, hproper⟩
    · rintro ⟨⟨filter, hfilter⟩, hproper⟩
      obtain ⟨given, hgiven, -⟩ := ofPairs_singleton_eq_ok_iff.mp hfilter
      exact ⟨given.trimmed,
        (Tag.parse_tokenText_eq_ok_iff hsignFree).mpr ⟨hproper, given, hgiven, rfl⟩⟩
  · intro filter tag hfilter hparse
    obtain ⟨given, hgiven, rfl⟩ := ofPairs_singleton_eq_ok_iff.mp hfilter
    obtain ⟨-, given', hgiven', rfl⟩ := (Tag.parse_tokenText_eq_ok_iff hsignFree).mp hparse
    rw [hgiven] at hgiven'
    cases hgiven'
    rfl
  · intro cause hrefused
    obtain ⟨pair, hpair, rfl⟩ := exists_tagSyntax_of_ofPairs hrefused
    obtain rfl := List.mem_singleton.mp hpair
    cases hparse : Tag.parse (Tag.tokenText key value) with
    | error cause => rw [Tag.eq_tagSyntax_of_parse hparse]
    | ok tag =>
        obtain ⟨-, given, hgiven, -⟩ := (Tag.parse_tokenText_eq_ok_iff hsignFree).mp hparse
        rw [ofPairs_singleton_eq_ok_iff.mpr ⟨given, hgiven, rfl⟩] at hrefused
        cases hrefused

/-- A footpath whose texts have blanks around them. -/
def footpath : TagFilter := ⟨[⟨" highway", some "foot path\t"⟩]⟩

/-- The footpath is accepted as a pair and as a token, and the token is read without the blanks. -/
theorem pair_and_token_footpath :
    '=' ∉ " highway".toList ∧ (∀ text ∈ some "foot path\t", '=' ∉ text.toList) ∧
    ofPairs [(" highway", some "foot path\t")] = .ok footpath ∧
    ∃ tag, Tag.parse " highway=foot path\t" = .ok tag ∧ footpath.trimmed = ⟨[tag]⟩ := by
  have hkey : '=' ∉ " highway".toList := by decide
  have hvalue : ∀ text ∈ some "foot path\t", '=' ∉ text.toList := by decide
  have hproper : ∀ text ∈ some "foot path\t", ¬ Text.AllBlank text.toList := by decide
  have hpair : ofPairs [(" highway", some "foot path\t")] = .ok footpath := rfl
  obtain ⟨haccepted, hequal, -⟩ := pair_and_token hkey hvalue
  obtain ⟨tag, hparse⟩ := haccepted.mpr ⟨⟨footpath, hpair⟩, hproper⟩
  exact ⟨hkey, hvalue, hpair, tag, hparse, hequal footpath tag hpair hparse⟩

/-- A name that is a blank is accepted as a pair, and refused as a token: the pair is tested as it
stands, and the token after it was trimmed. -/
theorem not_accepts_alike_blank :
    '=' ∉ "name".toList ∧ '=' ∉ " ".toList ∧
    ofPairs [("name", some " ")] = .ok ⟨[⟨"name", some " "⟩]⟩ ∧
    Tag.parse (Tag.tokenText "name" (some " ")) = .error (.tagSyntax "name= ") ∧
    ¬ ((∃ filter, ofPairs [("name", some " ")] = .ok filter) ↔
      ∃ tag, Tag.parse (Tag.tokenText "name" (some " ")) = .ok tag) := by
  have hpair : ofPairs [("name", some " ")] = .ok ⟨[⟨"name", some " "⟩]⟩ := rfl
  have hrefused : Tag.parse (Tag.tokenText "name" (some " ")) = .error (.tagSyntax "name= ") := by
    decide +kernel
  refine ⟨by decide, by decide, hpair, hrefused, fun halike => ?_⟩
  obtain ⟨tag, hparse⟩ := halike.mp ⟨_, hpair⟩
  rw [hrefused] at hparse
  cases hparse

end TagFilter

end Overpass
