import Overpass.Proofs.Numeric.Reading
import Overpass.Proofs.Region.Resolved
import Overpass.Proofs.Region.Text
import Overpass.Proofs.Text.Words
import Overpass.Region.Reading

/-!
# Reading regions back

Boxes and outlines are written for the server, and read where they are given on the command line or
in a program. The two formats are the same up to the word and the quotes around an outline: numbers
are written with a point, so that no mark around them belongs to them, and every number is read back
from its degrees. A region that was resolved from a box is therefore resolved again from the box it
is printed as, and likewise from the numbers of its outline, however these are spaced.

## Main Statements

* `Bbox.ofText_render`: a box of finite sides is read back from its text
* `Outline.ofText_of_spells`: an outline of finite points is read back from its numbers, spaced in
  any way
* `Resolver.reads_back`: a resolved region is resolved again from each of its texts
-/

namespace Overpass

/-! ### Numbers among marks -/

/-- No character of a number is a blank. So trimming leaves printed numbers as they are. -/
theorem Numeral.isBlank_of_isPart {c : Char} (h : isPart c = true) : Text.isBlank c = false := by
  rw [isPart, Bool.or_eq_true, List.contains_iff_mem] at h
  rcases h with hdigit | hmark
  · simp only [Char.isDigit, Bool.and_eq_true, decide_eq_true_eq, ge_iff_le,
      UInt32.le_iff_toNat_le] at hdigit
    have hzero : '0'.val.toNat = 48 := rfl
    have hnine : '9'.val.toNat = 57 := rfl
    have hc : c.toNat = c.val.toNat := rfl
    simp [Text.isBlank]
    omega
  · simp only [List.mem_cons, List.not_mem_nil, or_false] at hmark
    rcases hmark with rfl | rfl | rfl | rfl | rfl | rfl | rfl | rfl | rfl <;> rfl

/-- Nor is one of them a separator of outlines, and so a printed number is a single word. -/
theorem Numeral.isSeparator_of_isPart {c : Char} (h : isPart c = true) :
    Outline.isSeparator c = false := by
  have hcomma : c ≠ ',' := by
    rintro rfl
    cases h
  simp [Outline.isSeparator, isBlank_of_isPart h, hcomma]

theorem Binary64.trim_degrees (x : Binary64) : Text.trim x.degrees = x.degrees := by
  have hblank : ∀ c ∈ x.degrees, Text.isBlank c = false :=
    fun c hc => Numeral.isBlank_of_isPart (x.isPart_of_mem_degrees c hc)
  exact Text.trim_eq_self (fun c hc => hblank c (List.mem_of_mem_head? hc))
    fun c hc => hblank c (List.mem_of_getLast? hc)

/-! ### Boxes -/

namespace Bbox

variable {b : Bbox}

/-- Nothing but the parentheses is taken off the text of a box: what stands between them is trimmed
already. -/
theorem body_render (b : Bbox) : body b.render = b.numbers := by
  have hopening : ∀ c ∈ (b.numbers ++ [')']).head?, (c == '(') = false := by
    intro c hc
    rcases List.mem_append.mp (List.mem_of_mem_head? hc) with hmem | hmem
    · exact beq_false_of_ne (ne_of_mem_of_not_mem hmem (notMem_numbers rfl (by decide)))
    · rw [List.mem_singleton.mp hmem]
      rfl
  have hclosing : ∀ c ∈ b.numbers.getLast?, (c == ')') = false := fun c hc =>
    beq_false_of_ne
      (ne_of_mem_of_not_mem (List.mem_of_getLast? hc) (notMem_numbers rfl (by decide)))
  have htrim : Text.trim b.render.toList = b.render.toList := by
    rw [toList_render]
    refine Text.trim_eq_self (by simp [Text.isBlank]) fun c hc => ?_
    rw [← List.cons_append, List.getLast?_concat] at hc
    obtain rfl := Option.some_inj.mp hc
    rfl
  rw [body, htrim, toList_render, ← List.singleton_append,
    (takeWhile_append_of_head? (by simp) hopening).2, Text.dropEndWhile_append (by simp) hclosing]

/-- Between the commas inside of a box are the degrees of its sides, in which there is no comma. -/
theorem splitOn_numbers (b : Bbox) : b.numbers.splitOn ',' = b.sides.map Binary64.degrees := by
  rw [numbers, List.splitOn_intercalate]
  · intro part hpart hcomma
    obtain ⟨x, -, rfl⟩ := List.mem_map.mp hpart
    have hpart := x.isPart_of_mem_degrees _ hcomma
    cases hpart
  · simp [sides]

/-- **A box of finite sides is read back from its text**, bit for bit, signs of zeros included. -/
theorem ofText_render (hb : ∀ x ∈ b.sides, x.isFinite) : ofText b.render = .ok b := by
  have hparts : ((body b.render).splitOn ',').mapM
      (fun part => Binary64.ofNumeral (Text.trim part)) = .ok b.sides := by
    rw [body_render, splitOn_numbers]
    refine mapM_map_eq_ok (List.forall₂_same.mpr fun x hx => ?_)
    rw [Binary64.trim_degrees, Binary64.ofNumeral_degrees (hb x hx)]
  rw [ofText, hparts]
  rfl

end Bbox

/-! ### Outlines -/

namespace Outline

variable {points : List Point}

/-- The degrees of a number are one word, since none of their characters is a separator. -/
theorem words_degrees (x : Binary64) : Text.words isSeparator x.degrees = [x.degrees] :=
  Text.words_eq_singleton x.degrees_ne_nil fun c hc =>
    Numeral.isSeparator_of_isPart (x.isPart_of_mem_degrees c hc)

/-- A point is printed as two words, which are the degrees of its coordinates. -/
theorem words_render (p : Point) :
    Text.words isSeparator p.render.toList = p.coordinates.map Binary64.degrees := by
  have htext : p.render.toList = p.lat.degrees ++ ' ' :: p.lon.degrees := by
    simp [Point.render, degreesText]
  rw [htext, Text.words_append_separator (by decide), words_degrees, words_degrees]
  rfl

/-- The words of an outline are the degrees of its coordinates, whether or not these are finite. -/
theorem words_numbers (points : List Point) :
    Text.words isSeparator (numbers points) =
      (points.flatMap Point.coordinates).map Binary64.degrees := by
  have hblank : " ".toList = [' '] := rfl
  rw [numbers, String.toList_intercalate, hblank, Text.words_intercalate (by decide), List.map_map,
    List.flatMap_map, List.map_flatMap]
  exact List.flatMap_congr fun p _ => words_render p

/-- Points are put together again from their coordinates, two by two. -/
theorem ofNumbers_flatMap (points : List Point) :
    ofNumbers (points.flatMap Point.coordinates) = points := by
  induction points with
  | nil => rfl
  | cons p points ih => exact congrArg (p :: ·) ih

theorem length_flatMap_coordinates (points : List Point) :
    (points.flatMap Point.coordinates).length = 2 * points.length := by
  rw [List.length_flatMap, List.sum_eq_card_nsmul _ 2 (by simp [Point.coordinates])]
  simp [Nat.mul_comm]

/-- **An outline of finite points is read back from its numbers**, spaced in any way. Which
separators stand between the numbers, and how many, does not count. -/
theorem ofText_of_spells (hpoints : ∀ p ∈ points, p.isFinite) {text : String}
    (htext : Text.Spells isSeparator (Text.words isSeparator (numbers points)) text.toList) :
    ofText text = .ok points := by
  have hfinite : ∀ x ∈ points.flatMap Point.coordinates, x.isFinite := by
    intro x hx
    obtain ⟨p, hp, hmem⟩ := List.mem_flatMap.mp hx
    exact Point.isFinite_iff.mp (hpoints p hp) x hmem
  have hlength : (points.flatMap Point.coordinates).length % 2 = 0 := by
    rw [length_flatMap_coordinates, Nat.mul_mod_right]
  rw [ofText, htext.words_eq, words_numbers,
    mapM_map_eq_ok (List.forall₂_same.mpr fun x hx => Binary64.ofNumeral_degrees (hfinite x hx))]
  dsimp only
  rw [if_pos hlength, ofNumbers_flatMap]

end Outline

/-! ### Resolved regions -/

/-- **A resolved region is resolved again from each of its texts**: from the box that it is printed
as, if it was resolved from a box, and from the numbers of its outline, if it was resolved from an
outline, whatever blanks and commas stand before, between and after them. -/
theorem Resolver.reads_back (resolver : Resolver) :
    (∀ b region, resolver.ofBbox b = .ok region →
      Bbox.ofText (region.render .bbox) = .ok region.bbox ∧
        resolver.ofBbox region.bbox = .ok region) ∧
    (∀ points region, resolver.ofOutline points = .ok region →
      ∃ numbers, (region.render .poly).toList = "(poly:\"".toList ++ numbers ++ "\")".toList ∧
        ∀ text : String,
          Text.Spells Outline.isSeparator (Text.words Outline.isSeparator numbers) text.toList →
            Outline.ofText text = .ok region.outline ∧
              resolver.ofOutline region.outline = .ok region) := by
  constructor
  · intro b region h
    have hsides := (Region.isFinite_iff.mp (resolved_of_ofBbox h).isFinite).1
    have hbbox : region.bbox = b := by
      obtain ⟨⟨⟩, -, h⟩ := bind_eq_ok_iff.mp h
      cases h
      rfl
    refine ⟨Bbox.ofText_render hsides, ?_⟩
    rw [hbbox, h]
  · intro points region h
    have hpoints := (Region.isFinite_iff.mp (resolved_of_ofOutline h).isFinite).2
    have houtline : region.outline = points := by
      obtain ⟨⟨⟩, -, h⟩ := bind_eq_ok_iff.mp h
      cases h
      rfl
    refine ⟨Outline.numbers region.outline, Outline.toList_render _, fun text htext => ?_⟩
    refine ⟨Outline.ofText_of_spells hpoints htext, ?_⟩
    rw [houtline, h]

/-- A box of one degree each way. -/
def Bbox.meadow : Bbox := ⟨.ofNat 47, .ofNat 8, .ofNat 48, .ofNat 9⟩

/-- The box of a meadow is read back from its text, and its corners with commas, a tab and a line
end around their numbers. -/
theorem Resolver.reads_back_meadow :
    natural.ofBbox .meadow = .ok (Region.ofForms .meadow Bbox.meadow.corners .bbox) ∧
    Bbox.ofText ((Region.ofForms .meadow Bbox.meadow.corners .bbox).render .bbox) = .ok .meadow ∧
    natural.ofOutline Bbox.meadow.corners =
      .ok (Region.ofForms .meadow Bbox.meadow.corners .poly) ∧
    Outline.ofText ", 47.0,8.0  47.0\t9.0 48.0 9.0, 48.0 8.0\n" = .ok Bbox.meadow.corners := by
  have hbox : natural.ofBbox .meadow = .ok (Region.ofForms .meadow Bbox.meadow.corners .bbox) := rfl
  have houtline : natural.ofOutline Bbox.meadow.corners =
      .ok (Region.ofForms .meadow Bbox.meadow.corners .poly) := rfl
  obtain ⟨hboxes, houtlines⟩ := reads_back natural
  obtain ⟨numbers, htext, hspells⟩ := houtlines _ _ houtline
  have hnumbers : numbers = Outline.numbers Bbox.meadow.corners := by
    have hsame := htext.symm.trans (Outline.toList_render Bbox.meadow.corners)
    simpa using hsame
  refine ⟨hbox, (hboxes _ _ hbox).1, houtline, (hspells _ ?_).1⟩
  rw [hnumbers, ← Text.words_eq_iff]
  decide +kernel

end Overpass
