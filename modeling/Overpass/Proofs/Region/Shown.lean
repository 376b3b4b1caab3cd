import Overpass.Proofs.Region.Reading

/-!
# What the text of a region says

A region is printed as a box or as an outline, and of its numbers only what can be read from their
degrees gets across. For a finite number that is every bit. An infinity is told from everything else
by its word, and of a bit pattern that stands for no number nothing is left but that it is none.
This module reads the printed text back as an extent, with numbers in the places of the degrees, and
shows that what is read is the extent of the region, up to the bit patterns of its NaNs. Nothing is
assumed of the region: a caller may bring in one whose coordinates were never checked.

## Main Definitions

* `Extent`, `Region.extent`: the form of a region that is printed, as numbers
* `Extent.Equal`: extents whose numbers are numerically equal
* `Extent.shown`: what gets across of an extent
* `Extent.read`: the extent that a text says

## Main Statements

* `Binary64.ofDegrees_degrees`: what is read from the degrees of a number
* `Extent.read_text`: what is read from the text of a region
-/

namespace Overpass

/-! ### Numbers -/

namespace Binary64

/-- What the degrees of a number show of it: all of its bits, or that it is no number. -/
def shown (x : Binary64) : Binary64 := if x.isNaN then nan else x

/-- The number that degrees say: they are a numeral, to which a point and a zero were appended where
the numeral had no point. Words for infinities and for what is no number have none. -/
def ofDegrees (cs : List Char) : Except NumeralError Binary64 :=
  match ofNumeral cs with
  | .ok x => .ok x
  | .error _ => ofNumeral cs.dropLast.dropLast

/-- What is neither finite nor a NaN is an infinity, of which only the sign is open. -/
theorem eq_infinity {x : Binary64} (hnan : x.isNaN = false) (hfinite : ¬ x.isFinite) :
    x = infinity x.negative := by
  obtain ⟨negative, magnitude, hlt⟩ := x
  simp only [isNaN, isFinite, decide_eq_true_eq, decide_eq_false_iff_not] at hnan hfinite
  have hmagnitude : magnitude = infiniteMagnitude :=
    Nat.le_antisymm (Nat.not_lt.mp hnan) (Nat.not_lt.mp hfinite)
  subst hmagnitude
  simp [infinity, ofMagnitude]

/-- **What is read from the degrees of a number** is what they show of it. The degrees of a finite
number are a numeral that is read back; those of an infinity and of a NaN are no numerals until the
point and the zero are taken off. -/
theorem ofDegrees_degrees (x : Binary64) : ofDegrees x.degrees = .ok x.shown := by
  by_cases hfinite : x.isFinite
  · rw [ofDegrees, ofNumeral_degrees hfinite, shown, isNaN_of_isFinite hfinite]
    rfl
  · cases hnan : x.isNaN with
    | true =>
        have hdegrees : x.degrees = ['N', 'a', 'N', '.', '0'] := by simp [degrees, text, hnan]
        rw [hdegrees, shown, hnan]
        rfl
    | false =>
        rw [shown, hnan, eq_infinity hnan hfinite]
        cases x.negative <;> rfl

/-- Comparisons see of a number only what its degrees show: nothing compares to what is no number,
whatever its bit pattern. -/
theorem shown_le_iff {x y : Binary64} : x.shown ≤ y ↔ x ≤ y := by
  cases hnan : x.isNaN with
  | false => rw [shown, hnan, if_neg Bool.false_ne_true]
  | true =>
      rw [shown, hnan, if_pos rfl]
      exact iff_of_false (fun h => absurd h.1 (by decide))
        fun h => Bool.false_ne_true (h.1.symm.trans hnan)

/-- The same holds of the greater number of the two. So comparing a point with a printed box comes
to what comparing it with the box itself would come to. -/
theorem le_shown_iff {x y : Binary64} : x ≤ y.shown ↔ x ≤ y := by
  cases hnan : y.isNaN with
  | false => rw [shown, hnan, if_neg Bool.false_ne_true]
  | true =>
      rw [shown, hnan, if_pos rfl]
      exact iff_of_false (fun h => absurd h.2.1 (by decide))
        fun h => Bool.false_ne_true (h.2.1.symm.trans hnan)

end Binary64

/-! ### Extents -/

/-- What the coordinates of a point show of it. -/
def Point.shown (p : Point) : Point := ⟨p.lat.shown, p.lon.shown⟩

/-- What the sides of a box show of it. -/
def Bbox.shown (b : Bbox) : Bbox := ⟨b.south.shown, b.west.shown, b.north.shown, b.east.shown⟩

/-- What is printed of a region: a box or an outline, by its numbers. The name of the region and the
form that is not printed are left out. -/
inductive Extent where
  | box (box : Bbox)
  | outline (points : List Point)

/-- The form in which a region is printed, as its encoding says. -/
def Region.extent (region : Region) : Extent :=
  match region.encoding with
  | .bbox => .box region.bbox
  | .poly => .outline region.outline

namespace Extent

/-- Extents with numerically equal coordinates, of the same form. Zeros of either sign are equal. -/
def Equal : Extent → Extent → Prop
  | box a, box b => a.Equal b
  | outline ps, outline qs => Point.AllEqual ps qs
  | _, _ => False

/-- What gets across of an extent when it is printed: all of its numbers, but not which NaN a NaN
is. -/
def shown : Extent → Extent
  | box b => .box b.shown
  | outline points => .outline (points.map Point.shown)

/-- The points that a list of numbers says, if there is a longitude for each latitude. -/
def pair? : List Binary64 → Option (List Point)
  | [] => some []
  | [_] => none
  | lat :: lon :: rest => (pair? rest).map fun points => ⟨lat, lon⟩ :: points

/-- The outline whose numbers a text starts with, up to the quote that ends them. -/
def readOutline (cs : List Char) : Option Extent :=
  match (Text.words Outline.isSeparator (cs.takeWhile (· != '"'))).mapM Binary64.ofDegrees with
  | .ok numbers => (pair? numbers).map outline
  | .error _ => none

/-- The box whose numbers a text starts with, up to the parenthesis that closes it. -/
def readBox (cs : List Char) : Option Extent :=
  match ((cs.takeWhile (· != ')')).splitOn ',').mapM Binary64.ofDegrees with
  | .ok [south, west, north, east] => some (box ⟨south, west, north, east⟩)
  | _ => none

/-- The extent that a text says: an outline after the word for it, and otherwise a box. -/
def read (text : String) : Option Extent :=
  match text.toList with
  | '(' :: 'p' :: 'o' :: 'l' :: 'y' :: ':' :: '"' :: cs => readOutline cs
  | '(' :: cs => readBox cs
  | _ => none

/-- The coordinates of points are paired again, each latitude with the longitude after it. An odd
number of coordinates would make no points. -/
theorem pair?_flatMap (points : List Point) :
    pair? (points.flatMap Point.coordinates) = some points := by
  induction points with
  | nil => rfl
  | cons p points ih =>
      show (pair? (points.flatMap Point.coordinates)).map _ = _
      rw [ih]
      rfl

/-- Degrees that are read one by one say what is shown of each number. Reading never fails on
degrees that were printed. -/
theorem mapM_ofDegrees (numbers : List Binary64) :
    (numbers.map Binary64.degrees).mapM Binary64.ofDegrees = .ok (numbers.map Binary64.shown) :=
  mapM_map_eq_ok (List.forall₂_map_right_iff.mpr
    (List.forall₂_same.mpr fun x _ => x.ofDegrees_degrees))

/-- Four sides are read from their degrees, with commas in between. No comma and no parenthesis
stands within a number, so there is only one way to read them. -/
theorem readBox_numbers (b : Bbox) : readBox (b.numbers ++ [')']) = some (box b.shown) := by
  have hinside : ∀ c ∈ b.numbers, (c != ')') = true := fun c hc =>
    bne_iff_ne.mpr (ne_of_mem_of_not_mem hc (Bbox.notMem_numbers rfl (by decide)))
  have htake : (b.numbers ++ [')']).takeWhile (· != ')') = b.numbers := by
    rw [List.takeWhile_append_of_pos hinside]
    exact List.append_nil _
  rw [readBox, htake, b.splitOn_numbers, mapM_ofDegrees]
  rfl

/-- A box is read back from its text. No number starts like the word for an outline, so a box is not
taken for one. -/
theorem read_render_bbox (b : Bbox) : read b.render = some (box b.shown) := by
  rw [read, Bbox.toList_render]
  split
  · next cs heq =>
      have hmem : 'p' ∈ b.numbers ++ [')'] := by
        rw [(List.cons.inj heq).2]
        exact List.mem_cons_self
      rcases List.mem_append.mp hmem with hnumber | hclosing
      · exact absurd hnumber (Bbox.notMem_numbers rfl (by decide))
      · exact absurd hclosing (by decide)
  · next cs _ heq =>
      rw [← (List.cons.inj heq).2]
      exact readBox_numbers b
  · next hneither => exact absurd rfl (hneither _)

/-- An outline is read back from its text, also one without any points, whose text holds no words
between its quotes. -/
theorem read_render_outline (points : List Point) :
    read (Outline.render points) = some (outline (points.map Point.shown)) := by
  have htext : (Outline.render points).toList =
      '(' :: 'p' :: 'o' :: 'l' :: 'y' :: ':' :: '"' :: (Outline.numbers points ++ ['"', ')']) := by
    rw [Outline.toList_render]
    simp
  have hinside : ∀ c ∈ Outline.numbers points, (c != '"') = true := fun c hc =>
    bne_iff_ne.mpr (ne_of_mem_of_not_mem hc (Outline.notMem_numbers rfl (by decide)))
  have htake : (Outline.numbers points ++ ['"', ')']).takeWhile (· != '"') =
      Outline.numbers points := by
    rw [List.takeWhile_append_of_pos hinside]
    exact List.append_nil _
  have hshown : (points.flatMap Point.coordinates).map Binary64.shown =
      (points.map Point.shown).flatMap Point.coordinates := by
    rw [List.map_flatMap, List.flatMap_map]
    rfl
  rw [read, htext]
  show readOutline _ = _
  rw [readOutline, htake, Outline.words_numbers, mapM_ofDegrees, hshown]
  show (pair? ((points.map Point.shown).flatMap Point.coordinates)).map outline = _
  rw [pair?_flatMap]
  rfl

/-- **The text of a region says what is printed of it**, up to the bit patterns of its NaNs. Nothing
is assumed of the region: its numbers need not be finite or within any range. -/
theorem read_text (region : Region) : read region.text = some region.extent.shown := by
  rw [Region.text, Region.extent]
  cases region.encoding with
  | bbox => exact read_render_bbox region.bbox
  | poly => exact read_render_outline region.outline

end Extent

/-- Equal regions are printed in the same form, with numerically equal coordinates. The encoding is
compared exactly, so the form is the same. -/
theorem Region.Equal.extent {a b : Region} (h : a.Equal b) : a.extent.Equal b.extent := by
  obtain ⟨-, hbox, houtline, hencoding⟩ := h
  unfold Region.extent
  rw [hencoding]
  cases b.encoding with
  | bbox => exact hbox
  | poly => exact houtline

end Overpass
