import Overpass.Proofs.Text.Pattern
import Overpass.Proofs.Text.Words
import Overpass.Tag

/-!
# The syntax of tokens

A token is trimmed, then matched against a pattern that is full of choices, and what the pattern
marks is trimmed once more. What comes of it is a plain split at the equals sign: a token with at
most one sign, and with something other than blanks on each side of it, gives what is left of its
two sides when they are trimmed. The choices do not matter. Where a key may end and where a value
may start is open only up to blanks, and blanks are dropped from the marked parts anyway.

## Main Definitions

* `Tag.beforeSign`, `Tag.afterSign?`: the two sides of a token
* `Tag.IsToken`: whether a text is a token
* `Tag.ofSides`: the tag of the trimmed sides

## Main Statements

* `Tag.matches_tokenPattern_iff`: what the pattern of tokens matches, and which parts it marks
* `Tag.ofToken?_eq_ite`: reading a token is splitting it
* `Tag.parse_eq_ite`: likewise with the refusal of all other texts
-/

namespace Overpass.Tag

variable {text before after : List Char} {groups : List (List Char)}

/-! ### The two sides of a token -/

/-- What stands before the first equals sign of a text: all of it, if there is no sign. -/
def beforeSign (text : List Char) : List Char := text.takeWhile (· != '=')

/-- What stands after the first equals sign of a text, if there is one. -/
def afterSign? (text : List Char) : Option (List Char) := (text.dropWhile (· != '=')).tail?

/-- Whether a text is a token: it has one equals sign at most, and there is more than blanks before
the sign and, if there is one, after it. -/
structure IsToken (text : List Char) : Prop where
  count_le_one : text.count '=' ≤ 1
  key : ¬ Text.AllBlank (beforeSign text)
  value : ∀ value ∈ afterSign? text, ¬ Text.AllBlank value

instance (text : List Char) : Decidable (IsToken text) :=
  decidable_of_iff (text.count '=' ≤ 1 ∧ ¬ Text.AllBlank (beforeSign text) ∧
    ∀ value ∈ afterSign? text, ¬ Text.AllBlank value)
    ⟨fun h => ⟨h.1, h.2.1, h.2.2⟩, fun h => ⟨h.count_le_one, h.key, h.value⟩⟩

/-- The tag whose key and value are the trimmed sides of a text. -/
def ofSides (text : List Char) : Tag where
  key := String.ofList (Text.trim (beforeSign text))
  value := (afterSign? text).map fun value => String.ofList (Text.trim value)

/-- The first equals sign divides a token: what stands before it holds none. -/
theorem sides_append (h : '=' ∉ before) (after : List Char) :
    beforeSign (before ++ '=' :: after) = before ∧
      afterSign? (before ++ '=' :: after) = some after := by
  have hbefore : ∀ c ∈ before, (c != '=') = true :=
    fun c hc => bne_iff_ne.mpr (ne_of_mem_of_not_mem hc h)
  have hafter : ∀ c ∈ ('=' :: after).head?, (c != '=') = false := by simp
  obtain ⟨htake, hdrop⟩ := takeWhile_append_of_head? hbefore hafter
  exact ⟨htake, by rw [afterSign?, hdrop, List.tail?_cons]⟩

theorem sides_of_notMem (h : '=' ∉ text) : beforeSign text = text ∧ afterSign? text = none := by
  have htext : ∀ c ∈ text, (c != '=') = true :=
    fun c hc => bne_iff_ne.mpr (ne_of_mem_of_not_mem hc h)
  refine ⟨List.takeWhile_eq_self_iff.mpr htext, ?_⟩
  rw [afterSign?, List.dropWhile_eq_nil_iff.mpr htext]
  rfl

/-- A text without equals signs is a token unless it is blank. There is no value that could be
missing. -/
theorem isToken_iff_of_notMem (h : '=' ∉ text) : IsToken text ↔ ¬ Text.AllBlank text := by
  obtain ⟨hbefore, hafter⟩ := sides_of_notMem h
  constructor
  · rintro ⟨-, hkey, -⟩
    rwa [hbefore] at hkey
  · intro hkey
    refine ⟨by rw [List.count_eq_zero_of_not_mem h]; exact Nat.zero_le 1, by rwa [hbefore], ?_⟩
    rw [hafter]
    exact fun _ hvalue => absurd hvalue (Option.not_mem_none _)

/-- A text with an equals sign is a token if it has no other one and neither side is blank. It is
told by its first equals sign which side is which. -/
theorem isToken_append_iff (h : '=' ∉ before) :
    IsToken (before ++ '=' :: after) ↔
      '=' ∉ after ∧ ¬ Text.AllBlank before ∧ ¬ Text.AllBlank after := by
  obtain ⟨hbefore, hafter⟩ := sides_append h after
  have hcount : (before ++ '=' :: after).count '=' ≤ 1 ↔ '=' ∉ after := by
    rw [List.count_append, List.count_eq_zero_of_not_mem h, List.count_cons_self,
      ← List.count_eq_zero]
    omega
  constructor
  · rintro ⟨hone, hkey, hvalue⟩
    rw [hbefore] at hkey
    exact ⟨hcount.mp hone, hkey, hvalue after hafter⟩
  · rintro ⟨hnone, hkey, hvalue⟩
    refine ⟨hcount.mpr hnone, by rwa [hbefore], ?_⟩
    rw [hafter]
    rintro _ ⟨⟩
    exact hvalue

theorem ofSides_of_notMem (h : '=' ∉ text) :
    ofSides text = ⟨String.ofList (Text.trim text), none⟩ := by
  obtain ⟨hbefore, hafter⟩ := sides_of_notMem h
  rw [ofSides, hbefore, hafter, Option.map_none]

/-- The tag of a token with an equals sign has the trimmed sides for key and value. -/
theorem ofSides_append (h : '=' ∉ before) :
    ofSides (before ++ '=' :: after) =
      ⟨String.ofList (Text.trim before), some (String.ofList (Text.trim after))⟩ := by
  obtain ⟨hbefore, hafter⟩ := sides_append h after
  rw [ofSides, hbefore, hafter, Option.map_some]

/-! ### What the pattern matches -/

/-- The pattern of keys matches texts without equals signs that do not end in a blank. It is not
what trims a key in front: the pattern of tokens is matched against a trimmed text. -/
theorem matches_keyPattern_iff :
    keyPattern.Matches text groups ↔
      '=' ∉ text ∧ (∃ c ∈ text.getLast?, Text.isBlank c = false) ∧ groups = [] := by
  simp only [keyPattern, Text.Pattern.matches_append_iff, Text.Pattern.matches_many_iff,
    Text.Pattern.matches_one_iff, Bool.and_eq_true, bne_iff_ne, Bool.not_eq_true']
  constructor
  · rintro ⟨front, _, _, _, rfl, rfl, ⟨hfront, rfl⟩, c, rfl, ⟨hsign, hblank⟩, rfl⟩
    refine ⟨fun hmem => ?_, ⟨c, by simp, hblank⟩, rfl⟩
    rcases List.mem_append.mp hmem with hmem | hmem
    · exact hfront _ hmem rfl
    · exact hsign (List.mem_singleton.mp hmem).symm
  · rintro ⟨hsign, ⟨c, hlast, hblank⟩, rfl⟩
    obtain ⟨front, rfl⟩ := List.getLast?_eq_some_iff.mp hlast
    rw [List.mem_append, List.mem_singleton, not_or] at hsign
    exact ⟨front, [c], [], [], rfl, rfl, ⟨fun d hd => ne_of_mem_of_not_mem hd hsign.1, rfl⟩, c,
      rfl, ⟨Ne.symm hsign.2, hblank⟩, rfl⟩

/-- What the pattern of tokens matches, and which parts of it are marked: a key that does not end
in a blank, and a value if an equals sign follows. -/
theorem matches_tokenPattern_iff :
    tokenPattern.Matches text groups ↔ ∃ key gap, '=' ∉ key ∧
      (∃ c ∈ key.getLast?, Text.isBlank c = false) ∧ Text.AllBlank gap ∧
      (text = key ++ gap ∧ groups = [key] ∨
        ∃ gap' value, Text.AllBlank gap' ∧ value ≠ [] ∧ '=' ∉ value ∧
          text = key ++ gap ++ '=' :: (gap' ++ value) ∧ groups = [key, value]) := by
  simp only [tokenPattern, Text.Pattern.matches_append_iff, Text.Pattern.matches_group_iff,
    Text.Pattern.matches_many_iff, Text.Pattern.matches_optional_iff,
    Text.Pattern.matches_one_iff, Text.Pattern.matches_atLeastOne_iff, matches_keyPattern_iff,
    beq_iff_eq, bne_iff_ne]
  constructor
  · rintro ⟨key, _, _, _, rfl, rfl, ⟨_, rfl, hkey, hlast, rfl⟩, gap, _, _, _, rfl, rfl,
      ⟨hgap, rfl⟩, ⟨_, _, _, _, rfl, rfl, ⟨_, rfl, rfl, rfl⟩, gap', value, _, _, rfl, rfl,
        ⟨hgap', rfl⟩, _, rfl, hne, hvalue, rfl⟩ | ⟨rfl, rfl⟩⟩
    · refine ⟨key, gap, hkey, hlast, hgap, Or.inr ⟨gap', value, hgap', hne, ?_, by simp, rfl⟩⟩
      exact fun hmem => hvalue _ hmem rfl
    · exact ⟨key, gap, hkey, hlast, hgap, Or.inl ⟨by simp, rfl⟩⟩
  · rintro ⟨key, gap, hkey, hlast, hgap, ⟨rfl, rfl⟩ |
      ⟨gap', value, hgap', hne, hvalue, rfl, rfl⟩⟩
    · exact ⟨key, gap, [key], [], rfl, rfl, ⟨[], rfl, hkey, hlast, rfl⟩, gap, [], [], [],
        by simp, rfl, ⟨hgap, rfl⟩, Or.inr ⟨rfl, rfl⟩⟩
    · refine ⟨key, gap ++ '=' :: (gap' ++ value), [key], [value], by simp, rfl,
        ⟨[], rfl, hkey, hlast, rfl⟩, gap, '=' :: (gap' ++ value), [], [value], rfl, rfl,
        ⟨hgap, rfl⟩, Or.inl ⟨['='], gap' ++ value, [], [value], rfl, rfl, ⟨'=', rfl, rfl, rfl⟩,
          gap', value, [], [value], rfl, rfl, ⟨hgap', rfl⟩, [], rfl, hne, ?_, rfl⟩⟩
      exact fun c hc => ne_of_mem_of_not_mem hc hvalue

/-! ### Reading is splitting -/

theorem sign_notMem_of_allBlank (h : Text.AllBlank text) : '=' ∉ text :=
  fun hmem => absurd (h _ hmem) (by decide)

/-- What the pattern finds in a trimmed text: the text is a token, and the marked parts are its
sides but for blanks around them. -/
theorem isToken_of_matches (h : tokenPattern.Matches (Text.trim text) groups) :
    IsToken text ∧ ∃ key values, groups = key :: values ∧
      ofSides text = ⟨String.ofList (Text.trim key),
        values.head?.map fun value => String.ofList (Text.trim value)⟩ := by
  obtain ⟨front, back, htext, hfront, hback⟩ := Text.exists_append_trim text
  obtain ⟨key, gap, hkey, ⟨c, hc, hblank⟩, hgap, hparts⟩ := matches_tokenPattern_iff.mp h
  have hkeyBlank : ¬ Text.AllBlank key := Text.not_allBlank_of_mem (List.mem_of_getLast? hc) hblank
  have hfrontSign := sign_notMem_of_allBlank hfront
  have hgapSign := sign_notMem_of_allBlank hgap
  have hbackSign := sign_notMem_of_allBlank hback
  rcases hparts with ⟨htrim, rfl⟩ | ⟨gap', value, hgap', hne, hvalue, htrim, rfl⟩
  · have hsplit : text = front ++ key ++ (gap ++ back) := by
      rw [htext, htrim]
      simp
    have hsign : '=' ∉ front ++ key ++ (gap ++ back) := by
      simp [hfrontSign, hkey, hgapSign, hbackSign]
    rw [hsplit, isToken_iff_of_notMem hsign, ofSides_of_notMem hsign,
      Text.trim_append hfront (Text.allBlank_append.mpr ⟨hgap, hback⟩)]
    exact ⟨Text.not_allBlank_append hkeyBlank, key, [], rfl, rfl⟩
  · have hsplit : text = (front ++ key ++ gap) ++ '=' :: (gap' ++ value ++ back) := by
      rw [htext, htrim]
      simp
    have hbefore : '=' ∉ front ++ key ++ gap := by simp [hfrontSign, hkey, hgapSign]
    have hafter : '=' ∉ gap' ++ value ++ back := by
      simp [sign_notMem_of_allBlank hgap', hvalue, hbackSign]
    -- The text is trimmed, and the value stands at its end, so the value is not blank.
    have hvalueBlank : ¬ Text.AllBlank value := by
      have hlast : value.getLast hne ∈ (Text.trim text).getLast? := by
        rw [htrim, ← List.cons_append, ← List.append_assoc, List.getLast?_append_of_ne_nil _ hne]
        exact List.getLast?_eq_some_getLast hne
      exact Text.not_allBlank_of_mem (List.getLast_mem hne)
        ((Text.isTrimmed_trim text).last _ hlast)
    rw [hsplit, isToken_append_iff hbefore, ofSides_append hbefore,
      Text.trim_append hfront hgap, Text.trim_append hgap' hback]
    exact ⟨⟨hafter, Text.not_allBlank_append hkeyBlank, Text.not_allBlank_append hvalueBlank⟩,
      key, [value], rfl, rfl⟩

/-- In a token the pattern finds the trimmed sides. So every token is matched, and what a match says
of its groups says which tag is read from it. -/
theorem exists_matches_of_isToken (h : IsToken text) :
    ∃ groups, tokenPattern.Matches (Text.trim text) groups := by
  by_cases hsign : '=' ∈ text
  · obtain ⟨before, after, rfl, hbefore⟩ := List.eq_append_cons_of_mem hsign
    obtain ⟨hafter, hkey, hvalue⟩ := (isToken_append_iff hbefore).mp h
    obtain ⟨hkeyNe, hkeyEnd⟩ := Text.trim_of_not_allBlank hkey
    obtain ⟨hvalueNe, -⟩ := Text.trim_of_not_allBlank hvalue
    obtain ⟨front, gap, hkeySplit, hfront, hgap⟩ := Text.exists_append_trim before
    obtain ⟨gap', back, hvalueSplit, hgap', hback⟩ := Text.exists_append_trim after
    have hsplit : before ++ '=' :: after =
        front ++ (Text.trim before ++ (gap ++ '=' :: gap') ++ Text.trim after) ++ back :=
      calc before ++ '=' :: after
          = (front ++ Text.trim before ++ gap) ++ '=' :: (gap' ++ Text.trim after ++ back) := by
            rw [← hkeySplit, ← hvalueSplit]
        _ = _ := by simp
    have htrim := ((Text.isTrimmed_trim before).append (Text.isTrimmed_trim after) hkeyNe hvalueNe
      (gap ++ '=' :: gap')).trim_append hfront hback
    rw [hsplit, htrim]
    exact ⟨_, matches_tokenPattern_iff.mpr ⟨Text.trim before, gap,
      fun hmem => hbefore (Text.mem_of_mem_trim hmem), hkeyEnd, hgap,
      Or.inr ⟨gap', Text.trim after, hgap', hvalueNe,
        fun hmem => hafter (Text.mem_of_mem_trim hmem), by simp, rfl⟩⟩⟩
  · have hblank := (isToken_iff_of_notMem hsign).mp h
    exact ⟨_, matches_tokenPattern_iff.mpr ⟨Text.trim text, [],
      fun hmem => hsign (Text.mem_of_mem_trim hmem), (Text.trim_of_not_allBlank hblank).2,
      Text.allBlank_nil, Or.inl ⟨(List.append_nil _).symm, rfl⟩⟩⟩

/-- **Reading a token is splitting it.** Which of its choices the search settles for is not asked:
each of them marks the sides up to blanks, and it settles for one whenever there is one. -/
theorem ofToken?_eq_ite (token : String) :
    ofToken? token = if IsToken token.toList then some (ofSides token.toList) else none := by
  unfold ofToken?
  cases hgroups : tokenPattern.groups? (Text.trim token.toList) with
  | none =>
      have hnone : ¬ IsToken token.toList := by
        intro htoken
        have hsome := Text.Pattern.isSome_groups?_iff.mpr (exists_matches_of_isToken htoken)
        rw [hgroups] at hsome
        cases hsome
      rw [if_neg hnone]
  | some groups =>
      obtain ⟨htoken, key, values, rfl, hsides⟩ :=
        isToken_of_matches (Text.Pattern.matches_of_groups? hgroups)
      rw [if_pos htoken, hsides]

/-- **The syntax of tokens.** A text with one equals sign at most, and with something other than
blanks before the sign and, if there is one, after it, is read as the tag of its trimmed sides;
any other text is refused, and shown as it was given. -/
theorem parse_eq_ite (token : String) :
    parse token = if IsToken token.toList then .ok (ofSides token.toList)
      else .error (.tagSyntax token) := by
  by_cases htoken : IsToken token.toList
  · rw [parse, ofToken?_eq_ite, if_pos htoken, if_pos htoken]
  · rw [parse, ofToken?_eq_ite, if_neg htoken, if_neg htoken]

/-- What is read from a token is the tag of its two sides, and nothing is read from what is no
token. -/
theorem parse_eq_ok_iff {token : String} {tag : Tag} :
    parse token = .ok tag ↔ IsToken token.toList ∧ ofSides token.toList = tag := by
  rw [parse, ofToken?_eq_ite]
  by_cases htoken : IsToken token.toList <;> simp [htoken]

/-- Blanks inside of a value are kept, of whatever sort, and blanks around the sign are not. -/
example : ofToken? " name =\tBad \n Godesberg " = some ⟨"name", some "Bad \n Godesberg"⟩ := by
  decide +kernel

end Overpass.Tag
