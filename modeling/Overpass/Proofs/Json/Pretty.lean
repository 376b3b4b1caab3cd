import Overpass.Json.Printer
import Overpass.Json.Reader
import Overpass.Proofs.Numeric.Reading

/-!
# Printed values are told apart

A printed value of finite numbers can be told from every other one, also where more text follows.
The first character decides what sort of value it is. A text ends with the quote that is not
escaped, a number with the first character that cannot stand in numbers, and whether another entry
or the closing bracket follows is decided by one character. Numbers that are not finite are left
out: they are all printed as null.

## Main Definitions

* `Json.AllFinite`: whether all numbers in a value are finite
* `Json.Shape`: the sorts of values
* `Json.enclose`: the lines of arrays and objects
* `Json.ToldApart`: whether what is written of two things is different for different things

## Main Statements

* `Json.readText_flatMap_escape`: the reader reads back what the printer puts between quotes
* `Json.toldApart_enclose`: arrays and objects are told apart if their entries are
* `Json.AllFinite.toldApart`: values of finite numbers are told apart
* `Json.text_injective`: values of finite numbers with the same text are the same
-/

namespace Overpass

namespace Json

/-! ### Texts -/

/-- The digits of a control character are read back as the character. Control characters are all
that is written by its number, so this covers every escape of that form. -/
theorem codeUnit?_controlDigits {c : Char} (hc : c.toNat < 0x20) :
    codeUnit? '0' '0' (Nat.digitChar (c.toNat / 16)) (Nat.digitChar (c.toNat % 16)) =
      some c.toNat := by
  have hall : ∀ n < 0x20, codeUnit? '0' '0' (Nat.digitChar (n / 16)) (Nat.digitChar (n % 16)) =
      some n := by decide
  exact hall c.toNat hc

/-- An escaped character is read back, and reading goes on after it. No escape is the beginning of
another one, so there is only one way to read it. -/
theorem readText_escape (c : Char) (rest : List Char) :
    readText (escape c ++ rest) = (readText rest).map fun read => (c :: read.1, read.2) := by
  unfold escape
  split_ifs with hself hb hf hn hr ht hcontrol
  · rcases hself with rfl | rfl <;> simp [readText, escaped?]
  · subst hb
    simp [readText, escaped?]
  · subst hf
    simp [readText, escaped?]
  · subst hn
    simp [readText, escaped?]
  · subst hr
    simp [readText, escaped?]
  · subst ht
    simp [readText, escaped?]
  · have hhigh : isHighSurrogate c.toNat = false := by
      rw [isHighSurrogate, Bool.and_eq_false_iff, decide_eq_false_iff_not]
      omega
    have hlow : isLowSurrogate c.toNat = false := by
      rw [isLowSurrogate, Bool.and_eq_false_iff, decide_eq_false_iff_not]
      omega
    simp [controlDigits, readText, codeUnit?_controlDigits hcontrol, hhigh, hlow,
      Char.ofNat_toNat]
  · rw [not_or] at hself
    simp [readText, hself.1, hself.2, hcontrol]

/-- **The reader reads back what the printer puts between quotes**, whatever follows the closing
quote. By induction on the text, one character after the other. -/
theorem readText_flatMap_escape (text rest : List Char) :
    readText (text.flatMap escape ++ '"' :: rest) = some (text, rest) := by
  induction text with
  | nil => rfl
  | cons c text ih => rw [List.flatMap_cons, List.append_assoc, readText_escape, ih]; rfl

theorem toList_quote (text : String) :
    (quote text).toList = '"' :: (text.toList.flatMap escape ++ ['"']) := by
  simp [quote]

/-- Texts between quotes are told apart, whatever follows, because they are read back with what
follows them. -/
theorem quote_append_inj {s t : String} {xs ys : List Char}
    (h : (quote s).toList ++ xs = (quote t).toList ++ ys) : s = t ∧ xs = ys := by
  rw [toList_quote, toList_quote, List.cons_append, List.cons_append, List.append_assoc,
    List.append_assoc, List.cons_inj_right] at h
  have hread := readText_flatMap_escape s.toList xs
  rw [List.singleton_append, List.singleton_append] at h
  rw [h, readText_flatMap_escape, Option.some_inj, Prod.mk.injEq, String.toList_inj] at hread
  exact ⟨hread.1.symm, hread.2.symm⟩

/-! ### Values of finite numbers -/

/-- Whether all numbers in a value are finite, however deep they are nested. -/
inductive AllFinite : Json → Prop
  | null : AllFinite .null
  | bool {value : Bool} : AllFinite (.bool value)
  | number {value : Binary64} : value.isFinite → AllFinite (.number value)
  | string {value : String} : AllFinite (.string value)
  | array {items : List Json} : (∀ item ∈ items, AllFinite item) → AllFinite (.array items)
  | object {members : Members} : (∀ m ∈ members, AllFinite m.2) → AllFinite (.object members)

attribute [simp] AllFinite.null AllFinite.bool AllFinite.string

@[simp] theorem allFinite_number {x : Binary64} : (number x).AllFinite ↔ x.isFinite :=
  ⟨fun | .number h => h, .number⟩

@[simp] theorem allFinite_array {items : List Json} :
    (array items).AllFinite ↔ ∀ item ∈ items, item.AllFinite :=
  ⟨fun | .array h => h, .array⟩

@[simp] theorem allFinite_object {members : Members} :
    (object members).AllFinite ↔ ∀ m ∈ members, m.2.AllFinite :=
  ⟨fun | .object h => h, .object⟩

/-- The sorts of values, as far as they can be told by the first character that is printed. -/
inductive Shape where
  | null
  | bool
  | number
  | string
  | array
  | object

/-- The sort of a value. -/
def shape : Json → Shape
  | .null => .null
  | .bool _ => .bool
  | .number _ => .number
  | .string _ => .string
  | .array _ => .array
  | .object _ => .object

/-- The sort of the values that are printed with a first character. -/
def Shape.ofHead (c : Char) : Shape :=
  if c = 'n' then .null
  else if c = 't' ∨ c = 'f' then .bool
  else if c = '"' then .string
  else if c = '[' then .array
  else if c = '\x7b' then .object
  else .number

theorem Shape.ofHead_of_mem_number {c : Char} (h : c.isDigit = true ∨ c = '.' ∨ c = '-') :
    ofHead c = .number := by
  have hne : ∀ d : Char, d.isDigit = false → d ≠ '.' → d ≠ '-' → c ≠ d := by
    rintro d hdigit hpoint hminus rfl
    rw [hdigit] at h
    rcases h with h | h | h
    exacts [Bool.false_ne_true h, hpoint h, hminus h]
  simp [ofHead, hne]

/-! ### The characters of printed values -/

section Characters

variable {α : Type} (level : ℕ)

/-- The blanks at the start of a line. -/
def indent : List Char := List.replicate (2 * level) ' '

/-- Entries on lines of their own, a comma before each. The first entry is not among them, since it
has a bracket before it. -/
def entryLines (entry : α → List Char) (entries : List α) : List Char :=
  entries.flatMap fun a => ',' :: '\n' :: (indent level ++ entry a)

/-- Entries between brackets: the first one has the opening bracket before it in place of a comma,
and there is no line end if there are none. -/
def enclose (opening closing : Char) (entry : α → List Char) : List α → List Char
  | [] => [opening, closing]
  | a :: rest =>
    opening :: '\n' :: (indent (level + 1) ++ (entry a ++
      (entryLines (level + 1) entry rest ++ '\n' :: (indent level ++ [closing]))))

/-- The characters of a member. -/
def memberText (m : String × Json) : List Char :=
  (quote m.1).toList ++ ':' :: ' ' :: (pretty level m.2).toList

theorem toList_lineStart : (lineStart level).toList = '\n' :: indent level := by
  simp [lineStart, indent]

theorem toList_prettyItems (items : List Json) :
    (prettyItems level items).toList =
      entryLines level (fun item => (pretty level item).toList) items := by
  induction items with
  | nil =>
      rw [prettyItems]
      rfl
  | cons item items ih =>
      simp only [entryLines] at ih
      simp [prettyItems, entryLines, toList_lineStart, ih]

theorem toList_prettyMembers (members : Members) :
    (prettyMembers level members).toList = entryLines level (memberText level) members := by
  induction members with
  | nil =>
      rw [prettyMembers]
      rfl
  | cons m members ih =>
      simp only [entryLines] at ih
      simp [prettyMembers, entryLines, memberText, toList_lineStart, ih]

theorem toList_pretty_number {x : Binary64} (hx : x.isFinite) :
    (pretty level (.number x)).toList = x.text .document := by
  rw [pretty, numberText, if_pos hx, String.toList_ofList]

theorem toList_pretty_array (items : List Json) :
    (pretty level (.array items)).toList =
      enclose level '[' ']' (fun item => (pretty (level + 1) item).toList) items := by
  cases items with
  | nil =>
      rw [pretty]
      rfl
  | cons item items => simp [pretty, enclose, toList_lineStart, toList_prettyItems]

theorem toList_pretty_object (members : Members) :
    (pretty level (.object members)).toList =
      enclose level '\x7b' '\x7d' (memberText (level + 1)) members := by
  cases members with
  | nil =>
      rw [pretty]
      rfl
  | cons m members =>
      simp [pretty, enclose, memberText, toList_lineStart, toList_prettyMembers]

theorem exists_head_enclose (opening closing : Char) (entry : α → List Char) (entries : List α) :
    ∃ cs, enclose level opening closing entry entries = opening :: cs := by
  cases entries with
  | nil => exact ⟨_, rfl⟩
  | cons a rest => exact ⟨_, rfl⟩

end Characters

/-- A value is printed with a first character of its sort: a digit or minus, a quote, a bracket or
the first letter of a word. So the first character of a text tells what sort of value it starts
with. -/
theorem AllFinite.exists_head {v : Json} (h : v.AllFinite) (level : ℕ) :
    ∃ c cs, (pretty level v).toList = c :: cs ∧ Shape.ofHead c = v.shape := by
  cases h with
  | null =>
      rw [pretty]
      exact ⟨'n', _, rfl, rfl⟩
  | @bool value =>
      cases value <;> rw [pretty]
      · exact ⟨'f', _, rfl, rfl⟩
      · exact ⟨'t', _, rfl, rfl⟩
  | @number x hx =>
      obtain ⟨c, cs, htext, hc⟩ := Binary64.exists_head_text hx .document
      rw [toList_pretty_number level hx, htext]
      exact ⟨c, cs, rfl, Shape.ofHead_of_mem_number hc⟩
  | string =>
      rw [pretty, toList_quote]
      exact ⟨'"', _, rfl, rfl⟩
  | array =>
      obtain ⟨cs, hcs⟩ := exists_head_enclose level '[' ']' _ _
      exact ⟨'[', cs, (toList_pretty_array level _).trans hcs, rfl⟩
  | object =>
      obtain ⟨cs, hcs⟩ := exists_head_enclose level '\x7b' '\x7d' _ _
      exact ⟨'\x7b', cs, (toList_pretty_object level _).trans hcs, rfl⟩

/-! ### Telling values apart -/

/-- Whether a text cannot go on with a number: what follows after a value in a document. -/
def Ends (cs : List Char) : Prop := ∀ c ∈ cs.head?, Numeral.isPart c = false

theorem ends_cons {c : Char} (h : Numeral.isPart c = false) (cs : List Char) : Ends (c :: cs) := by
  intro d hd
  rw [← Option.some_inj.mp hd]
  exact h

/-- Further entries, or the line end before the bracket, end an entry. Numbers are the only values
that need such an end, since all others are closed by a mark. -/
theorem ends_entryLines {α : Type} (level : ℕ) (entry : α → List Char) (entries : List α)
    (xs : List Char) : Ends (entryLines level entry entries ++ '\n' :: xs) := by
  cases entries with
  | nil => exact ends_cons rfl _
  | cons a rest => exact ends_cons rfl _

/-- Whether what is written of two things, with texts after it that end it, is the same for the same
things only. -/
def ToldApart {α : Type} (write : α → List Char) (a b : α) : Prop :=
  ∀ xs ys, Ends xs → Ends ys → write a ++ xs = write b ++ ys → a = b ∧ xs = ys

section Entries

variable {α : Type} {entry : α → List Char}

/-- Entries that are told apart one by one are told apart up to the line end after the last. -/
theorem entryLines_append_inj {as bs : List α} (h : ∀ a ∈ as, ∀ b ∈ bs, ToldApart entry a b)
    {level : ℕ} {xs ys : List Char}
    (heq : entryLines level entry as ++ '\n' :: xs = entryLines level entry bs ++ '\n' :: ys) :
    as = bs ∧ xs = ys := by
  induction as generalizing bs with
  | nil =>
      cases bs with
      | nil => exact ⟨rfl, (List.cons.inj heq).2⟩
      | cons b bs => cases heq
  | cons a as ih =>
      cases bs with
      | nil => cases heq
      | cons b bs =>
          have hfirst : entry a ++ (entryLines level entry as ++ '\n' :: xs) =
              entry b ++ (entryLines level entry bs ++ '\n' :: ys) := by
            simpa [entryLines] using heq
          obtain ⟨rfl, hrest⟩ := h a List.mem_cons_self b List.mem_cons_self _ _
            (ends_entryLines level entry as xs) (ends_entryLines level entry bs ys) hfirst
          obtain ⟨rfl, hxs⟩ := ih (fun c hc d hd =>
            h c (List.mem_cons_of_mem a hc) d (List.mem_cons_of_mem a hd)) hrest
          exact ⟨rfl, hxs⟩

/-- Entries between brackets are told apart, whatever follows the closing one. -/
theorem toldApart_enclose {as bs : List α} (h : ∀ a ∈ as, ∀ b ∈ bs, ToldApart entry a b)
    (level : ℕ) (opening : Char) {closing : Char} (hclosing : closing ≠ '\n') :
    ToldApart (enclose level opening closing entry) as bs := by
  intro xs ys _ _ heq
  cases as with
  | nil =>
      cases bs with
      | nil => exact ⟨rfl, List.append_cancel_left heq⟩
      | cons b bs =>
          simp [enclose, hclosing] at heq
  | cons a as =>
      cases bs with
      | nil =>
          simp [enclose, hclosing.symm] at heq
      | cons b bs =>
          have hlines : entryLines (level + 1) entry (a :: as) ++
              '\n' :: (indent level ++ closing :: xs) =
              entryLines (level + 1) entry (b :: bs) ++
                '\n' :: (indent level ++ closing :: ys) := by
            simpa [enclose, entryLines] using heq
          obtain ⟨hsame, hrest⟩ := entryLines_append_inj h hlines
          rw [List.append_cancel_left_eq, List.cons_inj_right] at hrest
          exact ⟨hsame, hrest⟩

end Entries

/-- A number is told from other numbers: it ends where a character follows that is no part of
numbers, and is read back from its text. -/
theorem toldApart_text {x y : Binary64} (hx : x.isFinite) (hy : y.isFinite) (style : NumberStyle) :
    ToldApart (Binary64.text style) x y := by
  intro xs ys hxs hys h
  obtain ⟨htake, hdrop⟩ := takeWhile_append_of_head? (x.isPart_of_mem_text style) hxs
  obtain ⟨htake', hdrop'⟩ := takeWhile_append_of_head? (y.isPart_of_mem_text style) hys
  rw [h, htake'] at htake
  rw [h, hdrop'] at hdrop
  have hread := Binary64.ofNumeral_text hy style
  rw [htake, Binary64.ofNumeral_text hx, Except.ok.injEq] at hread
  exact ⟨hread, hdrop.symm⟩

/-- A member is told from others by its name and its value, the name being read up to its closing
quote. -/
theorem toldApart_memberText {m n : String × Json} {level : ℕ}
    (h : ToldApart (fun v => (pretty level v).toList) m.2 n.2) :
    ToldApart (memberText level) m n := by
  intro xs ys hxs hys heq
  rw [memberText, memberText, List.append_assoc, List.append_assoc] at heq
  obtain ⟨hname, hvalue⟩ := quote_append_inj heq
  simp only [List.cons_append, List.cons_inj_right] at hvalue
  obtain ⟨hsame, hrest⟩ := h xs ys hxs hys hvalue
  exact ⟨Prod.ext hname hsame, hrest⟩

/-- Values that start the same text are of the same sort, since the first character tells the
sort. -/
theorem AllFinite.shape_eq {v w : Json} (hv : v.AllFinite) (hw : w.AllFinite) {level : ℕ}
    {xs ys : List Char} (h : (pretty level v).toList ++ xs = (pretty level w).toList ++ ys) :
    v.shape = w.shape := by
  obtain ⟨c, cs, hc, hcshape⟩ := hv.exists_head level
  obtain ⟨d, ds, hd, hdshape⟩ := hw.exists_head level
  rw [hc, hd, List.cons_append, List.cons_append, List.cons.injEq] at h
  rw [← hcshape, ← hdshape, h.1]

/-- Only values of the same sort need to be told apart. So the induction over values has one case
for each sort, and not one for each pair of sorts. -/
theorem toldApart_of_shape_eq {v w : Json} (hv : v.AllFinite) (hw : w.AllFinite) {level : ℕ}
    (h : v.shape = w.shape → ToldApart (fun v => (pretty level v).toList) v w) :
    ToldApart (fun v => (pretty level v).toList) v w :=
  fun xs ys hxs hys heq => h (hv.shape_eq hw heq) xs ys hxs hys heq

/-- Values of one sort are told apart if what they hold is, as it is written. -/
theorem ToldApart.congr {α : Type} {sort : α → Json} {write : α → List Char} {a b : α} {level : ℕ}
    (h : ToldApart write a b) (ha : (pretty level (sort a)).toList = write a)
    (hb : (pretty level (sort b)).toList = write b) :
    ToldApart (fun v => (pretty level v).toList) (sort a) (sort b) := by
  intro xs ys hxs hys heq
  dsimp only at heq
  rw [ha, hb] at heq
  obtain ⟨rfl, hrest⟩ := h xs ys hxs hys heq
  exact ⟨rfl, hrest⟩

/-- **Values of finite numbers are told apart**, whatever follows. The first character decides the
sort, and within arrays and objects the claim is known of the items and members. -/
theorem AllFinite.toldApart {v w : Json} (hv : v.AllFinite) (hw : w.AllFinite) (level : ℕ) :
    ToldApart (fun v => (pretty level v).toList) v w := by
  induction hv generalizing w level with
  | null =>
      refine toldApart_of_shape_eq .null hw fun hshape => ?_
      cases hw with
      | null => exact fun xs ys _ _ heq => ⟨rfl, List.append_cancel_left heq⟩
      | bool | number | string | array | object => cases hshape
  | @bool value =>
      refine toldApart_of_shape_eq .bool hw fun hshape => ?_
      cases hw with
      | @bool value' =>
          intro xs ys _ _ heq
          cases value <;> cases value' <;> simp [pretty] at heq ⊢ <;> exact heq
      | null | number | string | array | object => cases hshape
  | number hx =>
      refine toldApart_of_shape_eq (.number hx) hw fun hshape => ?_
      cases hw with
      | number hy =>
          exact (toldApart_text hx hy .document).congr (toList_pretty_number level hx)
            (toList_pretty_number level hy)
      | null | bool | string | array | object => cases hshape
  | @string text =>
      refine toldApart_of_shape_eq .string hw fun hshape => ?_
      cases hw with
      | @string text' =>
          have hquote : ToldApart (fun text => (quote text).toList) text text' :=
            fun xs ys _ _ heq => quote_append_inj heq
          exact hquote.congr (by rw [pretty]) (by rw [pretty])
      | null | bool | number | array | object => cases hshape
  | array hitems ih =>
      refine toldApart_of_shape_eq (.array hitems) hw fun hshape => ?_
      cases hw with
      | array hothers =>
          have hentries := toldApart_enclose
            (fun a ha b hb => ih a ha (hothers b hb) (level + 1)) level '['
            (by decide : ']' ≠ '\n')
          exact hentries.congr (toList_pretty_array level _) (toList_pretty_array level _)
      | null | bool | number | string | object => cases hshape
  | object hmembers ih =>
      refine toldApart_of_shape_eq (.object hmembers) hw fun hshape => ?_
      cases hw with
      | object hothers =>
          have hentries := toldApart_enclose
            (fun a ha b hb => toldApart_memberText (ih a ha (hothers b hb) (level + 1))) level
            '\x7b' (by decide : '\x7d' ≠ '\n')
          exact hentries.congr (toList_pretty_object level _) (toList_pretty_object level _)
      | null | bool | number | string | array => cases hshape

/-- **Values of finite numbers with the same text are the same.** Numbers that are not finite are
all printed as null, which is why they are excluded. -/
theorem text_injective {v w : Json} (hv : v.AllFinite) (hw : w.AllFinite) (h : v.text = w.text) :
    v = w := by
  have hend : Ends [] := fun _ hc => nomatch hc
  exact (hv.toldApart hw 0 [] [] hend hend (congrArg (fun s => s.toList ++ []) h)).1

end Json

end Overpass
