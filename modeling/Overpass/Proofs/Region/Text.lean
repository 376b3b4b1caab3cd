import Overpass.Proofs.Numeric.Text

/-!
# The texts of regions

A region is printed between parentheses. Inside there are only numbers, the marks between them and,
around an outline, a word and quotes, so that the first parenthesis that closes is the last
character.

## Main Definitions

* `Bbox.numbers`, `Outline.numbers`: what is printed inside

## Main Statements

* `Region.exists_text`: the shape of the text of a region
-/

namespace Overpass

/-- What is joined from several texts has the characters of these texts and those in between. -/
theorem mem_of_mem_intercalate {α : Type} {x : α} {between : List α} {parts : List (List α)}
    (h : x ∈ between.intercalate parts) : x ∈ between ∨ ∃ part ∈ parts, x ∈ part := by
  induction parts with
  | nil => cases h
  | cons part rest ih =>
      cases rest with
      | nil =>
          rw [List.intercalate_singleton] at h
          exact Or.inr ⟨part, List.mem_cons_self, h⟩
      | cons next rest =>
          rw [List.intercalate_cons_cons, List.mem_append, List.mem_append] at h
          rcases h with (hpart | hbetween) | hrest
          · exact Or.inr ⟨part, List.mem_cons_self, hpart⟩
          · exact Or.inl hbetween
          · exact (ih hrest).imp_right fun ⟨other, hother, hx⟩ =>
              ⟨other, List.mem_cons_of_mem part hother, hx⟩

/-- The sides of a box, as they are printed: in degrees, with commas in between. -/
def Bbox.numbers (b : Bbox) : List Char := [','].intercalate (b.sides.map Binary64.degrees)

/-- The text of a box: its numbers with commas in between, and parentheses around them. -/
theorem Bbox.toList_render (b : Bbox) : b.render.toList = '(' :: (b.numbers ++ [')']) := by
  simp [render, numbers, degreesText, Function.comp_def]

/-- Among the sides of a box there are only commas. All other characters belong to numbers, so the
commas and the closing parenthesis are where a reader expects them. -/
theorem Bbox.isPart_or_eq_of_mem_numbers {b : Bbox} {c : Char} (h : c ∈ b.numbers) :
    Numeral.isPart c = true ∨ c = ',' := by
  rcases mem_of_mem_intercalate h with hcomma | ⟨part, hpart, hmem⟩
  · exact Or.inr (List.mem_singleton.mp hcomma)
  · obtain ⟨x, -, rfl⟩ := List.mem_map.mp hpart
    exact Or.inl (x.isPart_of_mem_degrees c hmem)

theorem Bbox.notMem_numbers {b : Bbox} {c : Char} (hpart : Numeral.isPart c = false)
    (hne : c ≠ ',') : c ∉ b.numbers := by
  intro hmem
  rcases isPart_or_eq_of_mem_numbers hmem with h | h
  · rw [hpart] at h
    cases h
  · exact hne h

/-- The numbers of an outline, as they are printed: in degrees, with blanks in between. -/
def Outline.numbers (points : List Point) : List Char :=
  (" ".intercalate (points.map Point.render)).toList

/-- The text of an outline: its numbers with blanks in between, in quotes and parentheses, after the
word for polygons. -/
theorem Outline.toList_render (points : List Point) :
    (render points).toList = "(poly:\"".toList ++ numbers points ++ "\")".toList := by
  rw [render, String.toList_append, String.toList_append, numbers]

theorem Point.isPart_or_eq_of_mem_render {p : Point} {c : Char} (h : c ∈ p.render.toList) :
    Numeral.isPart c = true ∨ c = ' ' := by
  simp only [render, degreesText, String.toList_append, String.toList_ofList, List.mem_append] at h
  rcases h with (hlat | hblank) | hlon
  · exact Or.inl (p.lat.isPart_of_mem_degrees c hlat)
  · exact Or.inr (List.mem_singleton.mp hblank)
  · exact Or.inl (p.lon.isPart_of_mem_degrees c hlon)

/-- Among the numbers of an outline there are only blanks, which separate the two numbers of a point
as they separate points. -/
theorem Outline.isPart_or_eq_of_mem_numbers {points : List Point} {c : Char}
    (h : c ∈ numbers points) : Numeral.isPart c = true ∨ c = ' ' := by
  rw [numbers, String.toList_intercalate] at h
  rcases mem_of_mem_intercalate h with hblank | ⟨part, hpart, hmem⟩
  · exact Or.inr (List.mem_singleton.mp hblank)
  · rw [List.map_map] at hpart
    obtain ⟨p, -, rfl⟩ := List.mem_map.mp hpart
    exact p.isPart_or_eq_of_mem_render hmem

theorem Outline.notMem_numbers {points : List Point} {c : Char} (hpart : Numeral.isPart c = false)
    (hne : c ≠ ' ') : c ∉ numbers points := by
  intro hmem
  rcases isPart_or_eq_of_mem_numbers hmem with h | h
  · rw [hpart] at h
    cases h
  · exact hne h

/-- **A region is printed between parentheses**, and there are none in between. So a reader finds
its end at the first closing one. -/
theorem Region.exists_text (region : Region) :
    ∃ body, region.text.toList = '(' :: (body ++ [')']) ∧ ')' ∉ body := by
  rw [text]
  cases region.encoding with
  | bbox =>
      exact ⟨region.bbox.numbers, region.bbox.toList_render,
        Bbox.notMem_numbers rfl (by decide)⟩
  | poly =>
      refine ⟨"poly:\"".toList ++ Outline.numbers region.outline ++ ['"'], ?_, ?_⟩
      · simp [render, Outline.toList_render]
      · have hnumbers : ')' ∉ Outline.numbers region.outline :=
          Outline.notMem_numbers rfl (by decide)
        simp [hnumbers]

end Overpass
