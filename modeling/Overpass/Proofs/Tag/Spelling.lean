import Overpass.Proofs.Query.Refusal
import Overpass.Proofs.Tag.Token
import Overpass.Tag.Filter

/-!
# Spelling filters

A filter that was read from a text can be written down as a text again: as its tokens, with commas
between them. This is no matter of course, since keys and values of other filters may hold commas
and equals signs, or blanks at their ends, which no token can spell. But nothing of the kind is left
in what comes out of a text. A filter of such plain tags is read from its tokens, and also when
blanks are added around the tokens and around their equals signs.

## Main Definitions

* `Tag.IsPlain`: whether a key and a value can be spelled in a list of tokens
* `Tag.SpelledBy`, `TagFilter.SpelledBy`: the texts that spell a tag or a filter, spaced in any way
* `TagFilter.text`: the tokens of a filter with commas between them

## Main Statements

* `TagFilter.ofText_of_spelledBy`: a filter of plain tags is read from all texts that spell it
* `TagFilter.exists_ofText_iff`: the filters that are read from texts are those of plain tags
* `TagFilter.respelled`: what is read from a text is read from its own spellings
-/

namespace Overpass

namespace Tag

variable {tag : Tag} {text : List Char}

/-! ### Plain tags -/

/-- Whether a text can be the key or the value of a token that stands between commas. -/
structure IsPlainSide (text : List Char) : Prop where
  ne_nil : text ≠ []
  trimmed : Text.IsTrimmed text
  sign : '=' ∉ text
  comma : ',' ∉ text

/-- Whether the key and the value of a tag can be spelled in a list of tokens: they are not blank,
have no blanks at their ends, and hold neither commas nor equals signs. -/
structure IsPlain (tag : Tag) : Prop where
  key : IsPlainSide tag.key.toList
  value : ∀ value ∈ tag.value, IsPlainSide value.toList

theorem IsPlainSide.trim_eq (h : IsPlainSide text) : Text.trim text = text :=
  Text.trim_eq_self h.trimmed.head h.trimmed.last

theorem IsPlainSide.not_allBlank (h : IsPlainSide text) : ¬ Text.AllBlank text := by
  rw [← Text.trim_eq_nil_iff, h.trim_eq]
  exact h.ne_nil

/-- What is left of a side that is not blank, without equals signs or commas, is plain when it is
trimmed. -/
theorem isPlainSide_trim (hblank : ¬ Text.AllBlank text) (hsign : '=' ∉ text)
    (hcomma : ',' ∉ text) : IsPlainSide (String.ofList (Text.trim text)).toList := by
  rw [String.toList_ofList]
  exact ⟨(Text.trim_of_not_allBlank hblank).1, Text.isTrimmed_trim text,
    fun hmem => hsign (Text.mem_of_mem_trim hmem), fun hmem => hcomma (Text.mem_of_mem_trim hmem)⟩

/-- What is read from a token without commas is plain. Tokens between commas have none. -/
theorem isPlain_of_parse {token : String} (h : parse token = .ok tag)
    (hcomma : ',' ∉ token.toList) : tag.IsPlain := by
  obtain ⟨htoken, rfl⟩ := parse_eq_ok_iff.mp h
  generalize token.toList = text at htoken hcomma
  by_cases hsign : '=' ∈ text
  · obtain ⟨before, after, rfl, hbefore⟩ := List.eq_append_cons_of_mem hsign
    obtain ⟨hafter, hkey, hvalue⟩ := (isToken_append_iff hbefore).mp htoken
    simp only [List.mem_append, List.mem_cons, not_or] at hcomma
    rw [ofSides_append hbefore]
    refine ⟨isPlainSide_trim hkey hbefore hcomma.1, ?_⟩
    rintro _ ⟨⟩
    exact isPlainSide_trim hvalue hafter hcomma.2.2
  · rw [ofSides_of_notMem hsign]
    refine ⟨isPlainSide_trim ((isToken_iff_of_notMem hsign).mp htoken) hsign hcomma, ?_⟩
    exact fun _ hvalue => absurd hvalue (Option.not_mem_none _)

/-! ### Spellings of a tag -/

/-- The token of a tag. -/
def token (tag : Tag) : String := tokenText tag.key tag.value

/-- Whether a text is the token of a tag, with blanks added around it and around its equals sign. -/
inductive SpelledBy : Tag → List Char → Prop
  | key {key : String} {front back : List Char} (hfront : Text.AllBlank front)
      (hback : Text.AllBlank back) : SpelledBy ⟨key, none⟩ (front ++ key.toList ++ back)
  | value {key value : String} {front gap gap' back : List Char} (hfront : Text.AllBlank front)
      (hgap : Text.AllBlank gap) (hgap' : Text.AllBlank gap') (hback : Text.AllBlank back) :
      SpelledBy ⟨key, some value⟩
        ((front ++ key.toList ++ gap) ++ '=' :: (gap' ++ value.toList ++ back))

/-- A token spells its tag without blanks being added. So a canonical text is one of the spaced
ones. -/
theorem spelledBy_token (tag : Tag) : tag.SpelledBy tag.token.toList := by
  have hnil := Text.allBlank_nil
  obtain ⟨key, value⟩ := tag
  cases value with
  | none => simpa [token, tokenText] using @SpelledBy.key key [] [] hnil hnil
  | some value =>
      simpa [token, tokenText] using @SpelledBy.value key value [] [] [] [] hnil hnil hnil hnil

/-- A plain tag is read from every text that spells it: the blanks that were added are just those
that are trimmed. -/
theorem SpelledBy.parse_eq_ok (h : tag.SpelledBy text) (hplain : tag.IsPlain) :
    parse (String.ofList text) = .ok tag := by
  rw [parse_eq_ok_iff, String.toList_ofList]
  cases h with
  | @key key front back hfront hback =>
      have hsign : '=' ∉ front ++ key.toList ++ back := by
        simp [hplain.key.sign, sign_notMem_of_allBlank hfront, sign_notMem_of_allBlank hback]
      rw [isToken_iff_of_notMem hsign, ofSides_of_notMem hsign, Text.trim_append hfront hback,
        hplain.key.trim_eq, String.ofList_toList]
      exact ⟨Text.not_allBlank_append hplain.key.not_allBlank, rfl⟩
  | @value key value front gap gap' back hfront hgap hgap' hback =>
      have hvalue : IsPlainSide value.toList := hplain.value value rfl
      have hbefore : '=' ∉ front ++ key.toList ++ gap := by
        simp [hplain.key.sign, sign_notMem_of_allBlank hfront, sign_notMem_of_allBlank hgap]
      have hafter : '=' ∉ gap' ++ value.toList ++ back := by
        simp [hvalue.sign, sign_notMem_of_allBlank hgap', sign_notMem_of_allBlank hback]
      rw [isToken_append_iff hbefore, ofSides_append hbefore, Text.trim_append hfront hgap,
        Text.trim_append hgap' hback, hplain.key.trim_eq, hvalue.trim_eq, String.ofList_toList,
        String.ofList_toList]
      exact ⟨⟨hafter, Text.not_allBlank_append hplain.key.not_allBlank,
        Text.not_allBlank_append hvalue.not_allBlank⟩, rfl⟩

/-- What spells a plain tag holds no comma, so it is not divided when a list of tokens is. -/
theorem SpelledBy.comma_notMem (h : tag.SpelledBy text) (hplain : tag.IsPlain) : ',' ∉ text := by
  have hgap : ∀ {gap : List Char}, Text.AllBlank gap → ',' ∉ gap :=
    fun hgap hmem => absurd (hgap _ hmem) (by decide)
  cases h with
  | key hfront hback => simp [hplain.key.comma, hgap hfront, hgap hback]
  | value hfront hgapLeft hgapRight hback =>
      simp [hplain.key.comma, (hplain.value _ rfl).comma, hgap hfront, hgap hgapLeft,
        hgap hgapRight, hgap hback]

/-- What spells a plain tag is not blank, because a plain key is not. -/
theorem SpelledBy.not_allBlank (h : tag.SpelledBy text) (hplain : tag.IsPlain) :
    ¬ Text.AllBlank text := by
  cases h with
  | key => exact Text.not_allBlank_append hplain.key.not_allBlank
  | value =>
      rw [Text.allBlank_append]
      exact fun hblank => Text.not_allBlank_append hplain.key.not_allBlank hblank.1

end Tag

namespace TagFilter

variable {filter : TagFilter} {given : String} {tags : List Tag} {parts : List (List Char)}

/-! ### Reading filters -/

/-- A blank text asks for no tags at all. It is not read as a list with an empty token, which would
be refused. -/
theorem ofText_of_allBlank (h : Text.AllBlank given.toList) : ofText given = .ok empty := by
  rw [ofText, Text.trim_eq_nil_iff.mpr h]
  rfl

/-- However its tags are given, a filter is read tag by tag, in their order. -/
theorem mk_mapM_eq_ok_iff {α : Type} {read : α → Except QueryError Tag} {items : List α} :
    mk <$> items.mapM read = .ok filter ↔
      List.Forall₂ (fun item tag => read item = .ok tag) items filter.tags := by
  rw [map_eq_ok_iff, ← mapM_eq_ok_iff]
  constructor
  · rintro ⟨tags, hread, rfl⟩
    exact hread
  · exact fun hread => ⟨filter.tags, hread, rfl⟩

theorem ofTokens_eq_ok_iff {tokens : List String} :
    ofTokens tokens = .ok filter ↔
      List.Forall₂ (fun token tag => Tag.parse token = .ok tag) tokens filter.tags :=
  mk_mapM_eq_ok_iff

/-- A text that is not blank is read part by part, the parts being what stands between commas. -/
theorem ofText_eq_ok_iff (h : ¬ Text.AllBlank given.toList) :
    ofText given = .ok filter ↔
      List.Forall₂ (fun part tag => Tag.parse (String.ofList part) = .ok tag)
        (given.toList.splitOn ',') filter.tags := by
  have hne : ¬ (Text.trim given.toList).isEmpty = true := by
    rwa [List.isEmpty_iff, Text.trim_eq_nil_iff]
  rw [ofText, if_neg hne, ofTokens_eq_ok_iff, List.forall₂_map_left_iff]

/-- What is read from a text is plain: a comma ends the token that it stands in, and a second equals
sign is refused. -/
theorem isPlain_of_ofText (h : ofText given = .ok filter) : ∀ tag ∈ filter.tags, tag.IsPlain := by
  by_cases hblank : Text.AllBlank given.toList
  · rw [ofText_of_allBlank hblank] at h
    cases h
    exact fun _ htag => absurd htag List.not_mem_nil
  · have hread := (ofText_eq_ok_iff hblank).mp h
    have hparts : ∀ part ∈ given.toList.splitOn ',', ',' ∉ part :=
      fun _ => Text.notMem_of_mem_splitOn
    generalize given.toList.splitOn ',' = parts at hread hparts
    generalize filter.tags = tags at hread
    induction hread with
    | nil => exact fun _ htag => absurd htag List.not_mem_nil
    | @cons part tag parts tags hparse _ ih =>
        obtain ⟨hpart, hparts⟩ := List.forall_mem_cons.mp hparts
        refine List.forall_mem_cons.mpr ⟨Tag.isPlain_of_parse hparse ?_, ih hparts⟩
        rwa [String.toList_ofList]

/-! ### Spellings of a filter -/

/-- The tokens of a filter, with commas between them. This is its canonical spelling. -/
def text (filter : TagFilter) : String := ",".intercalate (filter.tags.map Tag.token)

/-- Whether a text is that of the tokens of a filter, with blanks added around the tokens and around
their equals signs. A filter without tags is spelled by blanks alone. -/
inductive SpelledBy : TagFilter → List Char → Prop
  | empty {gap : List Char} (hgap : Text.AllBlank gap) : SpelledBy empty gap
  | tags {tags : List Tag} {parts : List (List Char)} (hne : parts ≠ [])
      (hparts : List.Forall₂ Tag.SpelledBy tags parts) :
      SpelledBy ⟨tags⟩ ([','].intercalate parts)

theorem spelledBy_text (filter : TagFilter) : filter.SpelledBy filter.text.toList := by
  obtain ⟨tags⟩ := filter
  rw [text, String.toList_intercalate, List.map_map]
  cases tags with
  | nil => exact .empty Text.allBlank_nil
  | cons tag tags =>
      refine .tags (by simp) ?_
      rw [List.forall₂_map_right_iff, List.forall₂_same]
      exact fun tag _ => tag.spelledBy_token

/-- What spells plain tags holds neither commas nor blanks alone, and is read as these tags. -/
theorem forall₂_parse_of_spelledBy (h : List.Forall₂ Tag.SpelledBy tags parts)
    (hplain : ∀ tag ∈ tags, tag.IsPlain) :
    (∀ part ∈ parts, ',' ∉ part ∧ ¬ Text.AllBlank part) ∧
      List.Forall₂ (fun part tag => Tag.parse (String.ofList part) = .ok tag) parts tags := by
  induction h with
  | nil => exact ⟨fun _ hpart => absurd hpart List.not_mem_nil, .nil⟩
  | cons hpart _ ih =>
      obtain ⟨htag, hplain⟩ := List.forall_mem_cons.mp hplain
      obtain ⟨hparts, hread⟩ := ih hplain
      exact ⟨List.forall_mem_cons.mpr
        ⟨⟨hpart.comma_notMem htag, hpart.not_allBlank htag⟩, hparts⟩,
        .cons (hpart.parse_eq_ok htag) hread⟩

/-- What is joined is blank only if its parts are. One part that is not blank is enough, and here it
is the first. -/
theorem not_allBlank_intercalate {separator part : List Char} (hpart : ¬ Text.AllBlank part)
    (later : List (List Char)) : ¬ Text.AllBlank (separator.intercalate (part :: later)) := by
  intro hblank
  refine hpart fun c hc => hblank c ?_
  cases later with
  | nil => simpa using hc
  | cons next later =>
      rw [List.intercalate_cons_cons]
      simp [hc]

/-- **A filter of plain tags is read from every text that spells it**, with blanks around tokens and
around their equals signs. -/
theorem ofText_of_spelledBy (h : filter.SpelledBy given.toList)
    (hplain : ∀ tag ∈ filter.tags, tag.IsPlain) : ofText given = .ok filter := by
  generalize htext : given.toList = spelling at h
  cases h with
  | empty hgap => exact ofText_of_allBlank (htext ▸ hgap)
  | @tags tags parts hne hspelled =>
      obtain ⟨hparts, hread⟩ := forall₂_parse_of_spelledBy hspelled hplain
      have hblank : ¬ Text.AllBlank given.toList := by
        obtain ⟨part, later, rfl⟩ := List.exists_cons_of_ne_nil hne
        rw [htext]
        exact not_allBlank_intercalate (hparts part List.mem_cons_self).2 later
      rw [ofText_eq_ok_iff hblank, htext,
        List.splitOn_intercalate _ (fun part hpart => (hparts part hpart).1) hne]
      exact hread

/-- The filters that are read from texts are those of plain tags: what is read is plain, and what is
plain is read from its own text. -/
theorem exists_ofText_iff :
    (∃ given, ofText given = .ok filter) ↔ ∀ tag ∈ filter.tags, tag.IsPlain :=
  ⟨fun h => isPlain_of_ofText h.choose_spec,
    fun hplain => ⟨filter.text, ofText_of_spelledBy (spelledBy_text filter) hplain⟩⟩

/-- **What is read from a text is read from its own spellings**: from its tokens with commas between
them, and also when any blanks are added around the tokens and around their equals signs. -/
theorem respelled (h : ofText given = .ok filter) :
    ofText filter.text = .ok filter ∧
      ∀ spaced : String, filter.SpelledBy spaced.toList → ofText spaced = .ok filter :=
  ⟨ofText_of_spelledBy (spelledBy_text filter) (isPlain_of_ofText h),
    fun _ hspaced => ofText_of_spelledBy hspaced (isPlain_of_ofText h)⟩

/-- The gravel roads. -/
def gravel : TagFilter := ⟨[⟨"highway", none⟩, ⟨"surface", some "fine gravel"⟩]⟩

/-- The gravel roads are read from other spellings of what they were read from. -/
theorem respelled_gravel :
    ofText "highway ,\tsurface= fine gravel" = .ok gravel ∧
    gravel.text = "highway,surface=fine gravel" ∧ ofText gravel.text = .ok gravel ∧
    gravel.SpelledBy "\nhighway,surface \u00a0=fine gravel ".toList ∧
    ofText "\nhighway,surface \u00a0=fine gravel " = .ok gravel := by
  have hread : ofText "highway ,\tsurface= fine gravel" = .ok gravel := by decide +kernel
  have hhighway : Tag.SpelledBy ⟨"highway", none⟩ "\nhighway".toList :=
    @Tag.SpelledBy.key "highway" ['\n'] [] (by decide) (by decide)
  have hsurface : Tag.SpelledBy ⟨"surface", some "fine gravel"⟩
      "surface \u00a0=fine gravel ".toList :=
    @Tag.SpelledBy.value "surface" "fine gravel" [] [' ', '\u00a0'] [] [' '] (by decide)
      (by decide) (by decide) (by decide)
  have hspaced : gravel.SpelledBy "\nhighway,surface \u00a0=fine gravel ".toList := by
    have hjoined : "\nhighway,surface \u00a0=fine gravel ".toList =
        [','].intercalate ["\nhighway".toList, "surface \u00a0=fine gravel ".toList] := by
      decide +kernel
    rw [hjoined]
    exact .tags (List.cons_ne_nil _ _) (.cons hhighway (.cons hsurface .nil))
  obtain ⟨htext, hall⟩ := respelled hread
  exact ⟨hread, rfl, htext, hspaced, hall _ hspaced⟩

end TagFilter

end Overpass
