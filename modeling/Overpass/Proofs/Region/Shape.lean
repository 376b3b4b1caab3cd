import Overpass.Proofs.Query.Refusal
import Overpass.Proofs.Region.Box

/-!
# Polygons against outlines

A polygon is resolved by the outline of its outer ring, which is led back to its first position when
the polygon is made and cut open again when it is resolved. The box is found around the closed ring,
in another way than the box around an outline. Still a polygon resolves as the outline that it was
made from: with a closing position that is equal to the first one nothing is added to the
coordinates but perhaps the other sign of a zero, and a ring that cannot be cut open again, since
its first position holds a NaN, is refused either way.

## Main Definitions

* `Polygon.IsExtent`: what is relied on of a way to find the box around a polygon
* `Region.Matches`: whether regions are the same up to the signs of zeros in their boxes
* `Resolver.Agree`: whether two attempts to resolve a region come to the same end

## Main Statements

* `Polygon.isExtent_extent?`: the box around the outer ring is an extent
* `Resolver.resolved_of_ofPolygonBy`: regions from polygons are resolved
* `Resolver.ofPolygonBy_agrees_outline`: a polygon is resolved as its outline
* `Resolver.ofPolygonBy_agrees`: a polygon is resolved as the points that it was made from
-/

namespace Overpass

/-- What is relied on of a way to find the box around a polygon: only a polygon without positions
has none, and around finite positions it is bounded by their coordinates. -/
structure Polygon.IsExtent (extent? : Polygon → Option Bbox) : Prop where
  isSome : ∀ p : Polygon, p.exterior ≠ [] → (extent? p).isSome
  isAround : ∀ (p : Polygon) (b : Bbox), extent? p = some b →
    (∀ point ∈ p.exterior.map Position.toPoint, point.isFinite) →
      b.IsAround (p.exterior.map Position.toPoint)

/-- What is computed here around a ring is an extent as it is asked for: there is one unless the
ring is empty, and it is a box around the points of the ring. -/
theorem Polygon.isExtent_extent? : IsExtent extent? where
  isSome p hne := by
    obtain ⟨first, rest, hring⟩ := List.exists_cons_of_ne_nil hne
    rw [extent?, hring]
    rfl
  isAround _ _ h hfinite := Bbox.isAround_of_around? h hfinite

/-- Whether two regions show the same outline in the same way. Their boxes are equal, and where no
coordinate of the given points is a negative zero, even their names are the same. -/
structure Region.Matches (points : List Point) (a b : Region) : Prop where
  outline_eq : a.outline = b.outline
  encoding_eq : a.encoding = b.encoding
  bbox_equal : a.bbox.Equal b.bbox
  name_eq : .zero true ∉ points.flatMap Point.coordinates → a.name = b.name

/-- Whether two attempts to resolve a region come to the same end: both give regions that match, or
neither gives one. -/
def Resolver.Agree (points : List Point) : (a b : Except RegionError Region) → Prop
  | .ok a, .ok b => a.Matches points b
  | .error _, .error _ => True
  | _, _ => False

/-! ### A polygon and its outline -/

theorem Point.coordinates_subset {points others : List Point} (h : points ⊆ others) :
    points.flatMap coordinates ⊆ others.flatMap coordinates := by
  intro x hx
  obtain ⟨p, hp, hmem⟩ := List.mem_flatMap.mp hx
  exact List.mem_flatMap.mpr ⟨p, h hp, hmem⟩

theorem Point.check_ne_noExtent (p : Point) : p.check ≠ .error .noExtent := by
  have hrange : ∀ x, checkLatitude x ≠ .error .noExtent ∧ checkLongitude x ≠ .error .noExtent := by
    intro x
    constructor
    · unfold checkLatitude
      split_ifs <;> simp
    · unfold checkLongitude
      split_ifs <;> simp
  unfold check
  split_ifs
  · simp
  · intro h
    rcases bind_eq_error_iff.mp h with h | ⟨_, -, h⟩
    · exact (hrange p.lat).1 h
    · exact (hrange p.lon).2 h

/-- An outline is refused for the number of its points or for one of them, never for its box. -/
theorem Outline.check_ne_noExtent (points : List Point) :
    Outline.check points ≠ .error .noExtent := by
  have hpoints : points.forM Point.check ≠ .error .noExtent := by
    induction points with
    | nil => simp [pure, Except.pure]
    | cons p points ih =>
        intro h
        rcases bind_eq_error_iff.mp h with h | ⟨_, -, h⟩
        · exact p.check_ne_noExtent h
        · exact ih h
  unfold check
  split_ifs
  · simp
  · exact hpoints

namespace Resolver

variable {extent? : Polygon → Option Bbox} {points others : List Point}
  {a b : Except RegionError Region}

/-- Attempts that come to the same end for some points do so for more of them: there are fewer
negative zeros to be excluded. -/
theorem Agree.mono (h : Agree points a b) (hsubset : points ⊆ others) : Agree others a b := by
  cases a <;> cases b
  case ok.ok a b =>
    have hmatches : a.Matches points b := h
    exact { hmatches with
      name_eq := fun hzero =>
        hmatches.name_eq fun hmem => hzero (Point.coordinates_subset hsubset hmem) }
  all_goals exact h

/-- Regions in one outline and in boxes around points that cover each other match. Their boxes may
differ in the signs of zeros, and then their names differ too. -/
theorem matches_ofForms {bbox bbox' : Bbox} {outline : List Point} (encoding : Encoding)
    (hbbox : bbox.IsAround points) (hbbox' : bbox'.IsAround others)
    (hcovers : Point.Covers points others) (hcovered : Point.Covers others points)
    (hsubset : others ⊆ points) :
    (Region.ofForms bbox outline encoding).Matches points
      (Region.ofForms bbox' outline encoding) where
  outline_eq := rfl
  encoding_eq := rfl
  bbox_equal := hbbox.equal hbbox' hcovers hcovered
  name_eq := by
    intro hzero
    have hsame : bbox = bbox' :=
      (hbbox.equal hbbox' hcovers hcovered).eq (fun h => hzero (hbbox.mem_coordinates _ h))
        fun h => hzero (Point.coordinates_subset hsubset (hbbox'.mem_coordinates _ h))
    rw [hsame]

/-- A polygon is resolved in a box around its outer ring, unless its outline is refused: there is
one, since a polygon with an acceptable outline has positions. -/
theorem ofPolygonBy_of_check (hextent : Polygon.IsExtent extent?) (resolver : Resolver)
    {p : Polygon} (hcheck : Outline.check p.outline = .ok ()) :
    ∃ bbox, bbox.IsAround (p.exterior.map Position.toPoint) ∧ resolver.ofPolygonBy extent? p =
      .ok (Region.ofForms bbox p.outline (resolver.encoding .poly)) := by
  have hne : p.exterior ≠ [] := by
    intro hempty
    rw [Polygon.outline, hempty] at hcheck
    cases hcheck
  obtain ⟨bbox, hbbox⟩ := Option.isSome_iff_exists.mp (hextent.isSome p hne)
  have hfinite := Polygon.isFinite_exterior (Outline.isFinite_of_check hcheck)
  refine ⟨bbox, hextent.isAround p bbox hbbox hfinite, ?_⟩
  rw [ofPolygonBy, hcheck, hbbox]
  rfl

/-- What a polygon is resolved to: its outline was accepted, and the box is around its outer
ring. -/
theorem exists_eq_of_ofPolygonBy (hextent : Polygon.IsExtent extent?) {resolver : Resolver}
    {p : Polygon} {region : Region} (h : resolver.ofPolygonBy extent? p = .ok region) :
    Outline.check p.outline = .ok () ∧
      ∃ bbox, bbox.IsAround (p.exterior.map Position.toPoint) ∧
        region = Region.ofForms bbox p.outline (resolver.encoding .poly) := by
  obtain ⟨⟨⟩, hcheck, -⟩ := bind_eq_ok_iff.mp h
  obtain ⟨bbox, haround, hpolygon⟩ := ofPolygonBy_of_check hextent resolver hcheck
  exact ⟨hcheck, bbox, haround, Except.ok.inj (h.symm.trans hpolygon)⟩

/-- Regions from polygons are resolved, whatever way to find their boxes is relied on. -/
theorem resolved_of_ofPolygonBy (hextent : Polygon.IsExtent extent?) {resolver : Resolver}
    {p : Polygon} {region : Region} (h : resolver.ofPolygonBy extent? p = .ok region) :
    region.Resolved := by
  obtain ⟨hcheck, bbox, haround, rfl⟩ := exists_eq_of_ofPolygonBy hextent h
  have hpoints := Outline.isFinite_of_check hcheck
  exact Region.resolved_ofForms _ (haround.isFinite (Polygon.isFinite_exterior hpoints)) hpoints

theorem resolved_of_ofPolygon {resolver : Resolver} {p : Polygon} {region : Region}
    (h : resolver.ofPolygon p = .ok region) : region.Resolved :=
  resolved_of_ofPolygonBy Polygon.isExtent_extent? h

/-- **A polygon is resolved as its outline.** Its box is computed around the whole outer ring, with
the closing position, which changes the box at most in the sign of a zero. -/
theorem ofPolygonBy_agrees_outline (hextent : Polygon.IsExtent extent?) (resolver : Resolver)
    (p : Polygon) :
    Agree (p.exterior.map Position.toPoint) (resolver.ofPolygonBy extent? p)
      (resolver.ofOutline p.outline) := by
  cases hcheck : Outline.check p.outline with
  | error cause =>
      rw [ofPolygonBy, ofOutline, hcheck]
      trivial
  | ok =>
      have hfinite := Outline.isFinite_of_check hcheck
      obtain ⟨bbox, haround, hpolygon⟩ := ofPolygonBy_of_check hextent resolver hcheck
      rw [hpolygon, ofOutline, hcheck]
      exact matches_ofForms _ haround (Bbox.isAround_box hcheck)
        (Point.covers_of_subset p.outline_subset (Polygon.isFinite_exterior hfinite))
        (Polygon.covers_exterior hfinite) p.outline_subset

/-- No polygon is refused for having no extent: the outline is checked first, and what passes has
points, around which there is a box. -/
theorem ofPolygonBy_ne_noExtent (hextent : Polygon.IsExtent extent?) (resolver : Resolver)
    (p : Polygon) : resolver.ofPolygonBy extent? p ≠ .error .noExtent := by
  cases hcheck : Outline.check p.outline with
  | error cause =>
      intro h
      rw [ofPolygonBy, hcheck] at h
      cases h
      exact Outline.check_ne_noExtent _ hcheck
  | ok =>
      obtain ⟨bbox, -, hpolygon⟩ := ofPolygonBy_of_check hextent resolver hcheck
      rw [hpolygon]
      exact nofun

end Resolver

/-! ### Polygons made from points -/

namespace Position

variable {ring : List Position} {points : List Point}

/-- A point as a position. -/
def ofPoint (p : Point) : Position := ⟨p.lon, p.lat⟩

/-- A ring is closed if its first position is equal to its last one. An empty ring is closed by
this, and a ring is not if its first position is no number. -/
theorem isClosed_iff :
    IsClosed ring ↔ ∀ first ∈ ring.head?, ∀ last ∈ ring.getLast?, first.Equal last := by
  unfold IsClosed
  split <;> simp_all

theorem isClosed_map_ofPoint :
    IsClosed (points.map ofPoint) ↔
      ∀ first ∈ points.head?, ∀ last ∈ points.getLast?, first.Equal last := by
  rw [isClosed_iff, List.head?_map, List.getLast?_map]
  simp [ofPoint, Equal, Point.Equal, and_comm]

/-- Points are kept as they are on their way into a polygon and back. -/
theorem map_toPoint_ofPoint (points : List Point) : (points.map ofPoint).map toPoint = points := by
  simp [Function.comp_def, ofPoint, toPoint]

/-- Closing a ring adds no new position, since it repeats the first one. -/
theorem closeRing_subset (ring : List Position) : closeRing ring ⊆ ring := by
  unfold closeRing
  split_ifs
  · exact List.Subset.refl _
  · refine List.append_subset.mpr ⟨List.Subset.refl _, fun p hp => ?_⟩
    exact List.mem_of_mem_head? (Option.mem_toList.mp hp)

theorem closeRing_of_isClosed (h : IsClosed ring) : closeRing ring = ring := if_pos h

/-- A ring that is not closed gets its first position once more at its end. -/
theorem closeRing_of_not_isClosed {first : Position} {rest : List Position}
    (h : ¬ IsClosed (first :: rest)) : closeRing (first :: rest) = first :: rest ++ [first] :=
  if_neg h

end Position

namespace Polygon

variable {p : Polygon} {ring : List Position}

/-- A ring that is closed loses its last position, so that a closed list and the open one are
resolved alike. -/
theorem outline_of_isClosed (hring : p.exterior = ring) (hlength : 2 ≤ ring.length)
    (hclosed : Position.IsClosed ring) : p.outline = ring.dropLast.map Position.toPoint := by
  rw [outline, hring, if_pos ⟨hlength, hclosed⟩]

/-- The first position of a ring is shown: where the last one is left out, it is another one. -/
theorem toPoint_mem_outline {first : Position} {rest : List Position}
    (hring : p.exterior = first :: rest) : first.toPoint ∈ p.outline := by
  rw [outline, hring]
  refine List.mem_map_of_mem ?_
  split_ifs with hclosed
  · cases rest with
    | nil => exact absurd hclosed.1 (by simp)
    | cons next rest => exact List.mem_cons_self
  · exact List.mem_cons_self

end Polygon

namespace Resolver

variable {extent? : Polygon → Option Bbox} {points : List Point}

/-- Neither of two outlines with a point that is not finite is resolved, so there is nothing more to
compare. -/
theorem agree_of_not_isFinite (resolver : Resolver) {p : Polygon} {point : Point}
    (hpoint : ¬ point.isFinite) (hmem : point ∈ points) (hmem' : point ∈ p.outline) :
    Agree points (resolver.ofPolygonBy extent? p) (resolver.ofOutline points) := by
  have hrefused : ∀ outline, point ∈ outline → ∃ cause, Outline.check outline = .error cause := by
    intro outline hmem
    cases hcheck : Outline.check outline with
    | error cause => exact ⟨cause, rfl⟩
    | ok => exact absurd (Outline.isFinite_of_check hcheck point hmem) hpoint
  obtain ⟨_, hpoints⟩ := hrefused points hmem
  obtain ⟨_, hpolygon⟩ := hrefused p.outline hmem'
  rw [ofPolygonBy, ofOutline, hpoints, hpolygon]
  trivial

/-- The outer ring has no position that is none of the points, however the list of points was
closed. -/
theorem exterior_subset {p : Polygon}
    (hp : p.exterior = Position.closeRing (points.map Position.ofPoint)) :
    p.exterior.map Position.toPoint ⊆ points := by
  have hring := List.map_subset Position.toPoint
    (Position.closeRing_subset (points.map Position.ofPoint))
  rwa [← hp, Position.map_toPoint_ofPoint] at hring

/-- What is led back to the first point is cut open again, or refused if it cannot be. So a list
that is closed by its caller is resolved like the open one. -/
theorem agree_of_differ (hextent : Polygon.IsExtent extent?) (resolver : Resolver) {p : Polygon}
    (hp : p.exterior = Position.closeRing (points.map Position.ofPoint))
    (hdiffer : ∀ first ∈ points.head?, ∀ last ∈ points.getLast?, ¬ first.Equal last) :
    Agree points (resolver.ofPolygonBy extent? p) (resolver.ofOutline points) := by
  have hagree := ofPolygonBy_agrees_outline hextent resolver p
  cases points with
  | nil =>
      have houtline : p.outline = [] := by
        rw [Polygon.outline, hp]
        rfl
      rw [houtline] at hagree
      exact hagree.mono (exterior_subset hp)
  | cons first rest =>
      have hopen : ¬ Position.IsClosed ((first :: rest).map Position.ofPoint) := by
        rw [Position.isClosed_map_ofPoint]
        intro hmeet
        have hlast := List.getLast?_eq_some_getLast (List.cons_ne_nil first rest)
        exact hdiffer first rfl _ hlast (hmeet first rfl _ hlast)
      have hring := hp.trans (Position.closeRing_of_not_isClosed hopen)
      by_cases hself : first.Equal first
      · have hclosed : Position.IsClosed
            ((first :: rest).map Position.ofPoint ++ [Position.ofPoint first]) := by
          rw [Position.IsClosed, List.getLast?_concat]
          exact ⟨hself.2, hself.1⟩
        have houtline : p.outline = first :: rest := by
          rw [Polygon.outline_of_isClosed hring (by simp) hclosed, List.dropLast_concat,
            ← List.map_cons, Position.map_toPoint_ofPoint]
        rw [houtline] at hagree
        exact hagree.mono (exterior_subset hp)
      -- A first point with a NaN ends the ring too, without being equal to its end.
      · exact agree_of_not_isFinite resolver (fun hfinite => hself (Point.equal_self hfinite))
          List.mem_cons_self (Polygon.toPoint_mem_outline hring)

/-- Points that end where they start make a closed ring, which loses the last of them. -/
theorem agree_of_meet (hextent : Polygon.IsExtent extent?) (resolver : Resolver) {p : Polygon}
    (hp : p.exterior = Position.closeRing (points.map Position.ofPoint))
    (hlength : 2 ≤ points.length)
    (hmeet : ∀ first ∈ points.head?, ∀ last ∈ points.getLast?, first.Equal last) :
    Agree points (resolver.ofPolygonBy extent? p) (resolver.ofOutline points.dropLast) := by
  have hagree := ofPolygonBy_agrees_outline hextent resolver p
  have hclosed := Position.isClosed_map_ofPoint.mpr hmeet
  have houtline : p.outline = points.dropLast := by
    rw [Polygon.outline_of_isClosed (hp.trans (Position.closeRing_of_isClosed hclosed))
      (by simpa using hlength) hclosed, List.map_dropLast, Position.map_toPoint_ofPoint]
  rw [houtline] at hagree
  exact hagree.mono (exterior_subset hp)

/-- **A polygon is resolved as the points that it was made from**, whatever its holes. Where the
first and the last point differ, or there are none, it is resolved as all of the points, and where
they are equal as the points without the last one. It is never refused for the want of a box. -/
theorem ofPolygonBy_agrees (hextent : Polygon.IsExtent extent?) (resolver : Resolver) :
    (∀ (points : List Point) (p : Polygon),
      p.exterior = Position.closeRing (points.map Position.ofPoint) →
        ((∀ first ∈ points.head?, ∀ last ∈ points.getLast?, ¬ first.Equal last) →
          Agree points (resolver.ofPolygonBy extent? p) (resolver.ofOutline points)) ∧
        (2 ≤ points.length →
          (∀ first ∈ points.head?, ∀ last ∈ points.getLast?, first.Equal last) →
            Agree points (resolver.ofPolygonBy extent? p) (resolver.ofOutline points.dropLast))) ∧
    ∀ p : Polygon, resolver.ofPolygonBy extent? p ≠ .error .noExtent := by
  constructor
  · intro points p hp
    exact ⟨agree_of_differ hextent resolver hp, agree_of_meet hextent resolver hp⟩
  · exact ofPolygonBy_ne_noExtent hextent resolver

/-- The corners of a sail. -/
def sail : List Point := [⟨.ofNat 0, .ofNat 0⟩, ⟨.ofNat 1, .ofNat 0⟩, ⟨.ofNat 1, .ofNat 1⟩]

/-- The corners of a sail led back to the first one, with a zero of the other sign. -/
def closedSail : List Point := sail ++ [⟨.zero true, .ofNat 0⟩]

/-- A sail is resolved as its corners, whether or not these are led back to the first one. -/
theorem ofPolygonBy_agrees_sail :
    Polygon.IsExtent Polygon.extent? ∧
    (∃ region, natural.ofOutline sail = .ok region) ∧
    (∀ first ∈ sail.head?, ∀ last ∈ sail.getLast?, ¬ first.Equal last) ∧
    Agree sail (natural.ofPolygon (.ofRings (sail.map Position.ofPoint) []))
      (natural.ofOutline sail) ∧
    2 ≤ closedSail.length ∧
    (∀ first ∈ closedSail.head?, ∀ last ∈ closedSail.getLast?, first.Equal last) ∧
    Agree closedSail (natural.ofPolygon (.ofRings (closedSail.map Position.ofPoint) []))
      (natural.ofOutline sail) := by
  obtain ⟨hagree, -⟩ := ofPolygonBy_agrees Polygon.isExtent_extent? natural
  have hdiffer : ∀ first ∈ sail.head?, ∀ last ∈ sail.getLast?, ¬ first.Equal last := by decide
  have hmeet : ∀ first ∈ closedSail.head?, ∀ last ∈ closedSail.getLast?, first.Equal last := by
    decide
  have hlength : 2 ≤ closedSail.length := by decide
  exact ⟨Polygon.isExtent_extent?, ⟨_, rfl⟩, hdiffer, (hagree _ _ rfl).1 hdiffer, hlength, hmeet,
    (hagree _ _ rfl).2 hlength hmeet⟩

end Resolver

end Overpass
