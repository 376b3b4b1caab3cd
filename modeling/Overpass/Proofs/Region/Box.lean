import Mathlib.Order.Bounds.Basic
import Overpass.Proofs.Region.Resolved

/-!
# The smallest box around points

There are two ways to find the smallest box around some points: to start from the first of them, or
to start from a box that nothing lies in. Both give the box whose sides are the least and greatest
coordinates. Numerically there is only one such box; two of them may differ in the signs of zeros
only, and so may the boxes around points that differ in these signs.

## Main Definitions

* `Bbox.IsAround`: whether a box is bounded by the least and greatest coordinates of some points

## Main Statements

* `Bbox.around?_eq_some`: the two ways agree on finite points
* `Bbox.isAround_of_around?`: the box that they find is bounded by the coordinates of the points
* `Bbox.IsAround.equal`: boxes around points that cover each other are equal
-/

namespace Overpass

/-! ### Least and greatest numbers -/

namespace Binary64

variable {x y z : Binary64} {xs ys : Set Binary64}

/-- What is a number is at most itself. What is none is not comparable at all. -/
theorem le_self (h : x.isNaN = false) : x ≤ x := ⟨h, h, le_rfl⟩

/-- The order of numbers is transitive, also where it passes a zero of either sign. -/
theorem le_trans (hxy : x ≤ y) (hyz : y ≤ z) : x ≤ z :=
  ⟨hxy.1, hyz.2.1, hxy.2.2.trans hyz.2.2⟩

theorem Equal.le (h : x.Equal y) : x ≤ y := ⟨h.1, h.2.1, h.2.2.le⟩

/-- Numbers that are at most each other are equal, but not always the same: the two zeros are. -/
theorem equal_of_le_of_le (hxy : x ≤ y) (hyx : y ≤ x) : x.Equal y :=
  ⟨hxy.1, hxy.2.1, le_antisymm hxy.2.2 hyx.2.2⟩

/-- The least number of a set, compared with one more number, gives the least number of both. By
this the sides of a box are followed from point to point. -/
theorem isLeast_least (hx : IsLeast xs x) (hy : y.isNaN = false) :
    IsLeast (insert y xs) (x.least y) := by
  have hself : x ≤ x := hx.2 hx.1
  unfold least
  split_ifs with hlt
  · refine ⟨Set.mem_insert y xs, ?_⟩
    rintro z (rfl | hz)
    · exact le_self hy
    · exact le_trans ⟨hy, hself.1, hlt.2.2.le⟩ (hx.2 hz)
  · refine ⟨Set.mem_insert_of_mem y hx.1, ?_⟩
    rintro z (rfl | hz)
    · exact ⟨hself.1, hy, not_lt.mp fun hrank => hlt ⟨hy, hself.1, hrank⟩⟩
    · exact hx.2 hz

/-- The greatest number of a set, compared with one more number, gives the greatest number of
both. -/
theorem isGreatest_greatest (hx : IsGreatest xs x) (hy : y.isNaN = false) :
    IsGreatest (insert y xs) (x.greatest y) := by
  have hself : x ≤ x := hx.2 hx.1
  unfold greatest
  split_ifs with hlt
  · refine ⟨Set.mem_insert y xs, ?_⟩
    rintro z (rfl | hz)
    · exact le_self hy
    · exact le_trans (hx.2 hz) ⟨hself.1, hy, hlt.2.2.le⟩
  · refine ⟨Set.mem_insert_of_mem y hx.1, ?_⟩
    rintro z (rfl | hz)
    · exact ⟨hy, hself.1, not_lt.mp fun hrank => hlt ⟨hself.1, hy, hrank⟩⟩
    · exact hx.2 hz

/-- No finite number is beyond the largest one, on either side of zero. So a search for the least
number may start from the largest. -/
theorem rank_bounds (hx : x.isFinite) :
    (negate largest).rank ≤ x.rank ∧ x.rank ≤ largest.rank := by
  have hlargest : largest.rank = infiniteMagnitude - 1 := by decide
  have hnegated : (negate largest).rank = 1 - infiniteMagnitude := by decide
  have hmagnitude : x.magnitude < infiniteMagnitude := by simpa [isFinite] using hx
  rw [hlargest, hnegated, rank]
  split_ifs <;> omega

/-- The largest finite number is where the search for the least one starts, and is replaced by the
first finite number that it meets. -/
theorem least_largest (hx : x.isFinite) : largest.least x = x := by
  unfold least
  split_ifs with hlt
  · rfl
  · have hnan := isNaN_of_isFinite hx
    have hrank : largest.rank = x.rank :=
      le_antisymm (not_lt.mp fun h => hlt ⟨hnan, rfl, h⟩) (rank_bounds hx).2
    refine Equal.eq ⟨rfl, hnan, hrank⟩ (by decide) ?_
    rintro rfl
    cases hrank

theorem greatest_negate_largest (hx : x.isFinite) : (negate largest).greatest x = x := by
  unfold greatest
  split_ifs with hlt
  · rfl
  · have hnan := isNaN_of_isFinite hx
    have hrank : (negate largest).rank = x.rank :=
      le_antisymm (rank_bounds hx).1 (not_lt.mp fun h => hlt ⟨rfl, hnan, h⟩)
    refine Equal.eq ⟨rfl, hnan, hrank⟩ (by decide) ?_
    rintro rfl
    cases hrank

/-- Least numbers of sets that have equal numbers are equal. Sets are compared up to equality, so
that signs of zeros may differ throughout. -/
theorem equal_of_isLeast (hx : IsLeast xs x) (hy : IsLeast ys y)
    (hxs : ∀ a ∈ xs, ∃ b ∈ ys, b.Equal a) (hys : ∀ b ∈ ys, ∃ a ∈ xs, a.Equal b) : x.Equal y := by
  obtain ⟨b, hb, hbx⟩ := hxs x hx.1
  obtain ⟨a, ha, hay⟩ := hys y hy.1
  exact equal_of_le_of_le (le_trans (hx.2 ha) hay.le) (le_trans (hy.2 hb) hbx.le)

theorem equal_of_isGreatest (hx : IsGreatest xs x) (hy : IsGreatest ys y)
    (hxs : ∀ a ∈ xs, ∃ b ∈ ys, b.Equal a) (hys : ∀ b ∈ ys, ∃ a ∈ xs, a.Equal b) : x.Equal y := by
  obtain ⟨b, hb, hbx⟩ := hxs x hx.1
  obtain ⟨a, ha, hay⟩ := hys y hy.1
  exact equal_of_le_of_le (le_trans hbx.symm.le (hy.2 hb)) (le_trans hay.symm.le (hx.2 ha))

end Binary64

/-! ### Boxes around points -/

/-- Whether a box is bounded by the least and the greatest coordinates of some points. -/
structure Bbox.IsAround (b : Bbox) (points : List Point) : Prop where
  south : IsLeast {x | x ∈ points.map Point.lat} b.south
  west : IsLeast {x | x ∈ points.map Point.lon} b.west
  north : IsGreatest {x | x ∈ points.map Point.lat} b.north
  east : IsGreatest {x | x ∈ points.map Point.lon} b.east

namespace Bbox

variable {b c : Bbox} {p : Point} {points others : List Point}

theorem isAround_ofPoint (hp : p.isFinite) : (ofPoint p).IsAround [p] := by
  obtain ⟨hlat, hlon⟩ := Bool.and_eq_true_iff.mp hp
  have hlat' := Binary64.le_self (Binary64.isNaN_of_isFinite hlat)
  have hlon' := Binary64.le_self (Binary64.isNaN_of_isFinite hlon)
  constructor <;> simp [ofPoint, IsLeast, IsGreatest, lowerBounds, upperBounds, hlat', hlon']

/-- A box that is extended by a point is around one more point. This is the step of the loop over an
outline. -/
theorem IsAround.extend (h : b.IsAround points) (hp : p.isFinite) :
    (b.extend p).IsAround (points ++ [p]) := by
  obtain ⟨hlat, hlon⟩ := Bool.and_eq_true_iff.mp hp
  have hinsert : ∀ side : Point → Binary64,
      {x | x ∈ (points ++ [p]).map side} = insert (side p) {x | x ∈ points.map side} := by
    intro side
    ext x
    simp [or_comm]
  constructor <;> rw [hinsert]
  · exact Binary64.isLeast_least h.south (Binary64.isNaN_of_isFinite hlat)
  · exact Binary64.isLeast_least h.west (Binary64.isNaN_of_isFinite hlon)
  · exact Binary64.isGreatest_greatest h.north (Binary64.isNaN_of_isFinite hlat)
  · exact Binary64.isGreatest_greatest h.east (Binary64.isNaN_of_isFinite hlon)

/-- So a box that is extended by one point after the other is around all of them. -/
theorem IsAround.foldl_extend (h : b.IsAround points) (hothers : ∀ p ∈ others, p.isFinite) :
    (others.foldl Bbox.extend b).IsAround (points ++ others) := by
  induction others generalizing b points with
  | nil => rwa [List.append_nil]
  | cons p others ih =>
      obtain ⟨hp, hothers⟩ := List.forall_mem_cons.mp hothers
      rw [List.append_cons]
      exact ih (h.extend hp) hothers

/-- **The box that is found around finite points is bounded by their coordinates.** The search
starts from a box in which nothing lies, and the first point replaces all of its sides. -/
theorem isAround_of_around? (h : around? points = some b) (hpoints : ∀ p ∈ points, p.isFinite) :
    b.IsAround points := by
  cases points with
  | nil => cases h
  | cons p points =>
      obtain ⟨hp, hpoints⟩ := List.forall_mem_cons.mp hpoints
      cases h
      exact (isAround_ofPoint hp).foldl_extend hpoints

/-- The box that nothing lies in leaves no trace once it is extended by a finite point. Its sides
are the extreme finite numbers, on the wrong sides of all others. -/
theorem extend_nowhere (hp : p.isFinite) : nowhere.extend p = ofPoint p := by
  obtain ⟨hlat, hlon⟩ := Bool.and_eq_true_iff.mp hp
  simp only [extend, nowhere, ofPoint, Binary64.least_largest hlat, Binary64.least_largest hlon,
    Binary64.greatest_negate_largest hlat, Binary64.greatest_negate_largest hlon]

/-- **Starting from nowhere gives the same box as starting from the first point**, so the box around
a ring can be reasoned about as an extension point by point. -/
theorem around?_eq_some (hne : points ≠ []) (hpoints : ∀ p ∈ points, p.isFinite) :
    around? points = some (Outline.box points) := by
  cases points with
  | nil => exact absurd rfl hne
  | cons p points =>
      rw [around?, Outline.box, List.foldl_cons, extend_nowhere (hpoints p List.mem_cons_self)]

/-- The box around an outline that is accepted is bounded by its coordinates. -/
theorem isAround_box (hcheck : Outline.check points = .ok ()) :
    (Outline.box points).IsAround points := by
  have hpoints := Outline.isFinite_of_check hcheck
  have hne : points ≠ [] :=
    List.ne_nil_of_length_pos (Nat.zero_lt_of_lt (Outline.check_eq_ok_iff.mp hcheck).1)
  exact isAround_of_around? (around?_eq_some hne hpoints) hpoints

/-- **Boxes around points that cover each other are equal.** Neither the order of the points nor how
often they are repeated counts. -/
theorem IsAround.equal (hb : b.IsAround points) (hc : c.IsAround others)
    (hcovers : Point.Covers points others) (hcovered : Point.Covers others points) : b.Equal c := by
  have hequal : ∀ side : Point → Binary64, (∀ p q : Point, p.Equal q → (side p).Equal (side q)) →
      ∀ points others, Point.Covers others points →
        ∀ x ∈ {x | x ∈ points.map side}, ∃ y ∈ {x | x ∈ others.map side}, y.Equal x := by
    rintro side hside points others hcovers x hx
    obtain ⟨p, hp, rfl⟩ := List.mem_map.mp hx
    obtain ⟨q, hq, hequal⟩ := hcovers p hp
    exact ⟨side q, List.mem_map.mpr ⟨q, hq, rfl⟩, hside q p hequal⟩
  have hlat := hequal Point.lat fun _ _ h => h.1
  have hlon := hequal Point.lon fun _ _ h => h.2
  exact ⟨Binary64.equal_of_isLeast hb.south hc.south (hlat _ _ hcovered) (hlat _ _ hcovers),
    Binary64.equal_of_isLeast hb.west hc.west (hlon _ _ hcovered) (hlon _ _ hcovers),
    Binary64.equal_of_isGreatest hb.north hc.north (hlat _ _ hcovered) (hlat _ _ hcovers),
    Binary64.equal_of_isGreatest hb.east hc.east (hlon _ _ hcovered) (hlon _ _ hcovers)⟩

/-- The sides of a box are coordinates of the points that it is around. So each side is attained,
and a box has no numbers of its own. -/
theorem IsAround.mem_coordinates (h : b.IsAround points) :
    ∀ x ∈ b.sides, x ∈ points.flatMap Point.coordinates := by
  have hmem : ∀ side : Point → Binary64, (∀ p : Point, side p ∈ p.coordinates) →
      ∀ x ∈ points.map side, x ∈ points.flatMap Point.coordinates := by
    intro side hside x hx
    obtain ⟨p, hp, rfl⟩ := List.mem_map.mp hx
    exact List.mem_flatMap.mpr ⟨p, hp, hside p⟩
  have hlat := hmem Point.lat fun p => List.mem_cons_self
  have hlon := hmem Point.lon fun p => List.mem_cons_of_mem _ List.mem_cons_self
  simp only [sides, List.forall_mem_cons]
  exact ⟨hlat _ h.south.1, hlon _ h.west.1, hlat _ h.north.1, hlon _ h.east.1,
    fun _ hx => absurd hx List.not_mem_nil⟩

/-- The box around finite points has finite sides, since they are coordinates of the points. -/
theorem IsAround.isFinite (h : b.IsAround points) (hpoints : ∀ p ∈ points, p.isFinite) :
    ∀ x ∈ b.sides, x.isFinite := by
  intro x hx
  obtain ⟨p, hp, hmem⟩ := List.mem_flatMap.mp (h.mem_coordinates x hx)
  exact Point.isFinite_iff.mp (hpoints p hp) x hmem

end Bbox

end Overpass
