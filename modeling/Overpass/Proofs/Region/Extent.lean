import Overpass.Proofs.Region.Shape

/-!
# The extent of a resolved region

A region holds a box and an outline and can be printed as either, so both ought to cover the same
extent. Around an outline or a polygon the box is found, and it fits tightly: it holds every point,
and each of its sides runs through one of them. Since all points are on the map, such a box is
accepted in its own right.

The other way round, the outline of a box is its corners. The box fits them if its west does not lie
east of its east. This is asked of no box, since one that reaches across the meridian of 180 degrees
has its west in the east of the map. The box that fits the corners of such a box lies between the
same two meridians, but on the side where the map does not end.

## Main Definitions

* `Bbox.Fits`: whether a box fits points tightly
* `Region.Tight`: whether the box of a region fits its outline, which is on the map

## Main Statements

* `Bbox.Fits.equal`: only one box fits given points
* `Bbox.fits_corners`: a box fits its corners if its west does not lie east of its east
* `Resolver.extent_of_corners`: when a box and its corners cover the same extent
* `Resolver.tight`: regions from outlines and polygons are tight
-/

namespace Overpass

/-! ### Numbers in order -/

namespace Binary64

variable {bound x y : Binary64}

theorem le_of_not_le (hx : x.isNaN = false) (hy : y.isNaN = false) (h : ¬ x ≤ y) : y ≤ x :=
  ⟨hy, hx, (not_le.mp fun hrank => h ⟨hx, hy, hrank⟩).le⟩

theorem InRange.isNaN (h : InRange bound x) : x.isNaN = false := isNaN_of_isFinite h.isFinite

/-- What is equal to a number within a range is within it too. So a box that is equal to an accepted
one is accepted. -/
theorem InRange.congr (h : InRange bound x) (hequal : x.Equal y) : InRange bound y where
  isFinite := hequal.isFinite h.isFinite
  negate_le := le_trans h.negate_le hequal.le
  le := le_trans hequal.symm.le h.le

end Binary64

/-! ### Boxes that fit -/

/-- Whether a box fits points tightly: it holds all of them, and each of its sides runs through one
of them. -/
structure Bbox.Fits (b : Bbox) (points : List Point) : Prop where
  holds : ∀ p ∈ points, (b.south ≤ p.lat ∧ p.lat ≤ b.north) ∧ b.west ≤ p.lon ∧ p.lon ≤ b.east
  south : ∃ p ∈ points, p.lat.Equal b.south
  west : ∃ p ∈ points, p.lon.Equal b.west
  north : ∃ p ∈ points, p.lat.Equal b.north
  east : ∃ p ∈ points, p.lon.Equal b.east

namespace Bbox

open Binary64

variable {b c : Bbox} {points others : List Point}

/-- A coordinate of some points is, as a number, one of other points that cover them. -/
theorem exists_equal_of_covers {side : Point → Binary64} {x : Binary64}
    (hside : ∀ p q : Point, p.Equal q → (side p).Equal (side q))
    (hcovers : Point.Covers points others) (hx : x ∈ others.map side) :
    ∃ p ∈ points, (side p).Equal x := by
  obtain ⟨q, hq, rfl⟩ := List.mem_map.mp hx
  obtain ⟨p, hp, hequal⟩ := hcovers q hq
  exact ⟨p, hp, hside p q hequal⟩

/-- A box that is bounded by the coordinates of some points fits all points that these cover and
are covered by. -/
theorem IsAround.fits (h : b.IsAround others) (hcovers : Point.Covers points others)
    (hcovered : Point.Covers others points) : b.Fits points where
  holds := by
    intro p hp
    obtain ⟨q, hq, hlat, hlon⟩ := hcovered p hp
    have hqlat : q.lat ∈ others.map Point.lat := List.mem_map_of_mem hq
    have hqlon : q.lon ∈ others.map Point.lon := List.mem_map_of_mem hq
    exact ⟨⟨le_trans (h.south.2 hqlat) hlat.le, le_trans hlat.symm.le (h.north.2 hqlat)⟩,
      le_trans (h.west.2 hqlon) hlon.le, le_trans hlon.symm.le (h.east.2 hqlon)⟩
  south := exists_equal_of_covers (fun _ _ hequal => hequal.1) hcovers h.south.1
  west := exists_equal_of_covers (fun _ _ hequal => hequal.2) hcovers h.west.1
  north := exists_equal_of_covers (fun _ _ hequal => hequal.1) hcovers h.north.1
  east := exists_equal_of_covers (fun _ _ hequal => hequal.2) hcovers h.east.1

/-- The box around an outline that is accepted fits it: it holds all points, and every side passes
through one of them. -/
theorem fits_box (hcheck : Outline.check points = .ok ()) : (Outline.box points).Fits points := by
  have hfinite := Outline.isFinite_of_check hcheck
  have hcovers := Point.covers_of_subset (List.Subset.refl points) hfinite
  exact (isAround_box hcheck).fits hcovers hcovers

/-- A box that fits some points lies within every box that holds them. In this sense it is the
smallest one. -/
theorem Fits.within (hb : b.Fits points) (hc : c.Fits points) :
    (c.south ≤ b.south ∧ b.north ≤ c.north) ∧ c.west ≤ b.west ∧ b.east ≤ c.east := by
  obtain ⟨p, hp, hsouth⟩ := hb.south
  obtain ⟨q, hq, hwest⟩ := hb.west
  obtain ⟨r, hr, hnorth⟩ := hb.north
  obtain ⟨s, hs, heast⟩ := hb.east
  exact ⟨⟨le_trans (hc.holds p hp).1.1 hsouth.le, le_trans hnorth.symm.le (hc.holds r hr).1.2⟩,
    le_trans (hc.holds q hq).2.1 hwest.le, le_trans heast.symm.le (hc.holds s hs).2.2⟩

/-- **Only one box fits given points**, but for the signs of zeros: each of two such boxes lies
within the other. -/
theorem Fits.equal (hb : b.Fits points) (hc : c.Fits points) : b.Equal c := by
  obtain ⟨⟨hsouth, hnorth⟩, hwest, heast⟩ := hb.within hc
  obtain ⟨⟨hsouth', hnorth'⟩, hwest', heast'⟩ := hc.within hb
  exact ⟨equal_of_le_of_le hsouth' hsouth, equal_of_le_of_le hwest' hwest,
    equal_of_le_of_le hnorth hnorth', equal_of_le_of_le heast heast'⟩

/-- A box that fits has its sides in order, since it is around at least one point. -/
theorem Fits.south_le_north (h : b.Fits points) : b.south ≤ b.north := by
  obtain ⟨p, hp, -⟩ := h.south
  exact le_trans (h.holds p hp).1.1 (h.holds p hp).1.2

theorem Fits.west_le_east (h : b.Fits points) : b.west ≤ b.east := by
  obtain ⟨p, hp, -⟩ := h.west
  exact le_trans (h.holds p hp).2.1 (h.holds p hp).2.2

/-- A box that fits points on the map is accepted: its sides are coordinates of these points, and
they are in order. -/
theorem Fits.check_eq_ok (h : b.Fits points) (hpoints : ∀ p ∈ points, p.OnMap) :
    b.check = .ok () := by
  obtain ⟨p, hp, hsouth⟩ := h.south
  obtain ⟨q, hq, hwest⟩ := h.west
  obtain ⟨r, hr, hnorth⟩ := h.north
  obtain ⟨s, hs, heast⟩ := h.east
  refine check_eq_ok_iff.mpr ⟨h.south_le_north, onMap_corners_iff.mpr ?_⟩
  exact ⟨⟨(hpoints p hp).lat.congr hsouth, (hpoints r hr).lat.congr hnorth⟩,
    (hpoints q hq).lon.congr hwest, (hpoints s hs).lon.congr heast⟩

/-! ### Corners -/

/-- A box fits its corners if its west does not lie east of its east. For latitudes this is what is
checked, for longitudes it is not. -/
theorem fits_corners (hlat : b.south ≤ b.north) (hlon : b.west ≤ b.east) : b.Fits b.corners := by
  have hsouth : b.south.Equal b.south := Binary64.equal_self_iff.mpr hlat.1
  have hnorth : b.north.Equal b.north := Binary64.equal_self_iff.mpr hlat.2.1
  have hwest : b.west.Equal b.west := Binary64.equal_self_iff.mpr hlon.1
  have heast : b.east.Equal b.east := Binary64.equal_self_iff.mpr hlon.2.1
  have hfirst : ⟨b.south, b.west⟩ ∈ b.corners := List.mem_cons_self
  have hopposite : ⟨b.north, b.east⟩ ∈ b.corners := by simp [corners]
  refine ⟨?_, ⟨_, hfirst, hsouth⟩, ⟨_, hfirst, hwest⟩, ⟨_, hopposite, hnorth⟩, _, hopposite, heast⟩
  simp [corners, hlat, hlon, hsouth.le, hnorth.le, hwest.le, heast.le]

/-- The box with its western and its eastern side exchanged. -/
def exchanged (b : Bbox) : Bbox := { b with west := b.east, east := b.west }

/-- Exchanging west and east leaves the corners of a box the same, in another order. -/
theorem mem_corners_exchanged (b : Bbox) (p : Point) : p ∈ b.exchanged.corners ↔ p ∈ b.corners := by
  simp only [corners, exchanged, List.mem_cons, List.not_mem_nil, or_false]
  tauto

/-- What a box fits is a matter of which points there are, and not of their order. -/
theorem Fits.congr (h : b.Fits points) (hmem : ∀ p, p ∈ points ↔ p ∈ others) : b.Fits others := by
  constructor <;> simp only [← hmem]
  exacts [h.holds, h.south, h.west, h.north, h.east]

/-- If the west of a box lies east of its east, the box with these sides exchanged fits the
corners. -/
theorem exchanged_fits_corners (hlat : b.south ≤ b.north) (hlon : b.east ≤ b.west) :
    b.exchanged.Fits b.corners :=
  (fits_corners (b := b.exchanged) hlat hlon).congr b.mem_corners_exchanged

/-- A box across the meridian of 180 degrees. -/
def strait : Bbox := ⟨.ofNat 65, .ofNat 170, .ofNat 66, .negate (.ofNat 170)⟩

end Bbox

/-! ### Resolved regions -/

/-- Whether the box of a region fits its outline, whose points are on the map and enough to enclose
something. -/
structure Region.Tight (region : Region) : Prop where
  three_le : 3 ≤ region.outline.length
  onMap : ∀ p ∈ region.outline, p.OnMap
  fits : region.bbox.Fits region.outline

/-- A region whose outline was accepted is tight if its box fits the outline, whatever the
encoding. -/
theorem Region.tight_ofForms {bbox : Bbox} {outline : List Point} (encoding : Encoding)
    (hcheck : Outline.check outline = .ok ()) (hfits : bbox.Fits outline) :
    (ofForms bbox outline encoding).Tight := by
  obtain ⟨hthree, honMap⟩ := Outline.check_eq_ok_iff.mp hcheck
  exact ⟨hthree, honMap, hfits⟩

namespace Resolver

variable {extent? : Polygon → Option Bbox} {resolver : Resolver} {region : Region}

theorem tight_of_ofOutline {points : List Point} (h : resolver.ofOutline points = .ok region) :
    region.Tight := by
  obtain ⟨hcheck, rfl⟩ := ofOutline_eq_ok_iff.mp h
  exact Region.tight_ofForms _ hcheck (Bbox.fits_box hcheck)

/-- The box is found around a ring that is led back to its first position, and fits the outline
without that position as well. -/
theorem tight_of_ofPolygonBy (hextent : Polygon.IsExtent extent?) {p : Polygon}
    (h : resolver.ofPolygonBy extent? p = .ok region) : region.Tight := by
  obtain ⟨hcheck, bbox, haround, rfl⟩ := exists_eq_of_ofPolygonBy hextent h
  have hfinite := Outline.isFinite_of_check hcheck
  exact Region.tight_ofForms _ hcheck (haround.fits (Polygon.covers_exterior hfinite)
    (Point.covers_of_subset p.outline_subset (Polygon.isFinite_exterior hfinite)))

/-- The box of a tight region is accepted in its own right. So it can be given instead of the
outline, for a larger region. -/
theorem exists_ofBbox_of_tight (h : region.Tight) (resolver : Resolver) :
    ∃ boxed, resolver.ofBbox region.bbox = .ok boxed :=
  ⟨_, ofBbox_eq_ok_iff.mpr ⟨h.fits.check_eq_ok h.onMap, rfl⟩⟩

/-- **Regions from outlines and polygons are tight**, and their boxes are accepted in their own
right, by any resolver. -/
theorem tight (hextent : Polygon.IsExtent extent?) (resolver : Resolver) :
    (∀ points region, resolver.ofOutline points = .ok region →
      region.Tight ∧ ∀ other : Resolver, ∃ boxed, other.ofBbox region.bbox = .ok boxed) ∧
    (∀ p region, resolver.ofPolygonBy extent? p = .ok region →
      region.Tight ∧ ∀ other : Resolver, ∃ boxed, other.ofBbox region.bbox = .ok boxed) := by
  constructor
  · intro points region h
    have htight := tight_of_ofOutline h
    exact ⟨htight, exists_ofBbox_of_tight htight⟩
  · intro p region h
    have htight := tight_of_ofPolygonBy hextent h
    exact ⟨htight, exists_ofBbox_of_tight htight⟩

/-- The region of a sail is tight, given as its corners or as a ring that leads back to the first
one, and its box is accepted. -/
theorem tight_sail :
    Polygon.IsExtent Polygon.extent? ∧
    natural.ofOutline sail = .ok (Region.ofForms (Outline.box sail) sail .poly) ∧
    natural.ofPolygon (.ofRings (closedSail.map Position.ofPoint) []) =
      .ok (Region.ofForms (Outline.box sail) sail .poly) ∧
    (Region.ofForms (Outline.box sail) sail .poly).Tight ∧
    ∃ boxed, natural.ofBbox (Outline.box sail) = .ok boxed := by
  have houtline : natural.ofOutline sail = .ok (Region.ofForms (Outline.box sail) sail .poly) := rfl
  have hpolygon : natural.ofPolygon (.ofRings (closedSail.map Position.ofPoint) []) =
      .ok (Region.ofForms (Outline.box sail) sail .poly) := rfl
  obtain ⟨houtlines, hpolygons⟩ := tight Polygon.isExtent_extent? natural
  exact ⟨Polygon.isExtent_extent?, houtline, hpolygon, (houtlines _ _ houtline).1,
    (hpolygons _ _ hpolygon).2 natural⟩

/-- **A box and its corners cover the same extent if and only if the west of the box does not lie
east of its east.** Otherwise the box that fits the corners has these two sides exchanged. -/
theorem extent_of_corners {b : Bbox} (h : resolver.ofBbox b = .ok region) :
    region.bbox = b ∧ (Outline.box region.outline).Fits region.outline ∧
      ((Outline.box region.outline).Equal region.bbox ↔ region.bbox.west ≤ region.bbox.east) ∧
      (¬ region.bbox.west ≤ region.bbox.east →
        (Outline.box region.outline).Equal region.bbox.exchanged) := by
  obtain ⟨hcheck, rfl⟩ := ofBbox_eq_ok_iff.mp h
  obtain ⟨hlat, honMap⟩ := Bbox.check_eq_ok_iff.mp hcheck
  obtain ⟨-, hwest, heast⟩ := Bbox.onMap_corners_iff.mp honMap
  have hfits : (Outline.box b.corners).Fits b.corners :=
    Bbox.fits_box (Outline.check_eq_ok_iff.mpr ⟨Nat.le_succ 3, honMap⟩)
  refine ⟨rfl, hfits, ⟨fun hequal => ?_, fun hlon => hfits.equal (Bbox.fits_corners hlat hlon)⟩,
    fun hlon => hfits.equal (Bbox.exchanged_fits_corners hlat
      (Binary64.le_of_not_le hwest.isNaN heast.isNaN hlon))⟩
  obtain ⟨-, hwests, -, heasts⟩ := hequal
  exact Binary64.le_trans hwests.symm.le (Binary64.le_trans hfits.west_le_east heasts.le)

/-- The box of a strait is exchanged for the one that spans the rest of the map, and that box covers
the same extent as its corners. -/
theorem extent_of_corners_strait :
    natural.ofBbox .strait = .ok (Region.ofForms .strait Bbox.strait.corners .bbox) ∧
    (Outline.box Bbox.strait.corners).Equal Bbox.strait.exchanged ∧
    natural.ofBbox Bbox.strait.exchanged =
      .ok (Region.ofForms Bbox.strait.exchanged Bbox.strait.exchanged.corners .bbox) ∧
    (Outline.box Bbox.strait.exchanged.corners).Equal Bbox.strait.exchanged := by
  have hstrait : natural.ofBbox .strait =
      .ok (Region.ofForms .strait Bbox.strait.corners .bbox) := rfl
  have hrest : natural.ofBbox Bbox.strait.exchanged =
      .ok (Region.ofForms Bbox.strait.exchanged Bbox.strait.exchanged.corners .bbox) := rfl
  obtain ⟨-, -, -, hexchanged⟩ := extent_of_corners hstrait
  obtain ⟨-, -, hequal, -⟩ := extent_of_corners hrest
  exact ⟨hstrait, hexchanged (by decide), hrest, hequal.mpr (by decide)⟩

/-- No box that fits the corners of a strait is equal to the box of the strait. -/
theorem not_fits_corners_strait :
    ∃ region, natural.ofBbox .strait = .ok region ∧
      ∀ c : Bbox, c.Fits region.outline → ¬ c.Equal region.bbox := by
  refine ⟨Region.ofForms .strait Bbox.strait.corners .bbox, rfl, fun c hfits hequal => ?_⟩
  obtain ⟨-, hwest, -, heast⟩ := hequal
  have hlon : Bbox.strait.west ≤ Bbox.strait.east :=
    Binary64.le_trans hwest.symm.le (Binary64.le_trans hfits.west_le_east heast.le)
  exact absurd hlon (by decide)

end Resolver

end Overpass
