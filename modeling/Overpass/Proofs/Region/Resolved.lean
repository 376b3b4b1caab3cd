import Overpass.Proofs.Numeric.Text
import Overpass.Proofs.Query.Formed
import Overpass.Proofs.Region.Equal

/-!
# Resolved regions

What a resolver gives is named after its key, and all of its coordinates are finite: not only those
that were checked, but also the sides of the box around an outline and the position that closes a
ring, which no check looks at. A region without a NaN is equal to itself, so that two selections in
the same region can share its area.

## Main Definitions

* `Point.OnMap`: whether a point lies within the range of latitudes and longitudes
* `Point.Covers`: whether some points have each of other points among them, up to signs of zeros
* `Region.Resolved`: what is known of a region that a resolver gives

## Main Statements

* `Outline.check_eq_ok_iff`, `Bbox.check_eq_ok_iff`: which outlines and which boxes are accepted
* `Resolver.resolved_of_ofBbox`, `Resolver.resolved_of_ofOutline`: regions from boxes and outlines
  are resolved
* `Region.Resolved.equal_self`: a resolved region is equal to itself
-/

namespace Overpass

/-! ### Finite numbers -/

namespace Binary64

variable {x y : Binary64}

/-- What is equal to a finite number is finite: an infinite number is equal to itself only. -/
theorem Equal.isFinite (h : x.Equal y) (hx : x.isFinite) : y.isFinite := by
  obtain ⟨-, -, hrank⟩ := h
  simp only [Binary64.isFinite, decide_eq_true_eq] at hx ⊢
  simp only [rank] at hrank
  split_ifs at hrank <;> omega

theorem isFinite_least (hx : x.isFinite) (hy : y.isFinite) : (x.least y).isFinite := by
  unfold least
  split_ifs <;> assumption

theorem isFinite_greatest (hx : x.isFinite) (hy : y.isFinite) : (x.greatest y).isFinite := by
  unfold greatest
  split_ifs <;> assumption

end Binary64

/-! ### Boxes around finite points -/

theorem Point.isFinite_iff {p : Point} : p.isFinite ↔ ∀ x ∈ p.coordinates, x.isFinite := by
  simp [isFinite, coordinates]

/-- The corners of a box show nothing but its sides. So the outline that is made of a box is finite
if the box is. -/
theorem Bbox.isFinite_corners {b : Bbox} (h : ∀ x ∈ b.sides, x.isFinite) :
    ∀ p ∈ b.corners, p.isFinite := by
  simp only [sides, List.forall_mem_cons] at h
  obtain ⟨hsouth, hwest, hnorth, heast, -⟩ := h
  simp [corners, Point.isFinite, hsouth, hwest, hnorth, heast]

theorem Bbox.isFinite_extend {b : Bbox} {p : Point} (hb : ∀ x ∈ b.sides, x.isFinite)
    (hp : p.isFinite) : ∀ x ∈ (b.extend p).sides, x.isFinite := by
  simp only [sides, List.forall_mem_cons] at hb
  obtain ⟨hsouth, hwest, hnorth, heast, -⟩ := hb
  obtain ⟨hlat, hlon⟩ := Bool.and_eq_true_iff.mp hp
  simp only [sides, extend, List.forall_mem_cons]
  exact ⟨Binary64.isFinite_least hsouth hlat, Binary64.isFinite_least hwest hlon,
    Binary64.isFinite_greatest hnorth hlat, Binary64.isFinite_greatest heast hlon,
    fun _ hx => absurd hx List.not_mem_nil⟩

/-- A box that is extended by finite points stays finite, by induction on the points. -/
theorem Bbox.isFinite_foldl_extend {points : List Point} (hpoints : ∀ p ∈ points, p.isFinite)
    {b : Bbox} (hb : ∀ x ∈ b.sides, x.isFinite) :
    ∀ x ∈ (points.foldl extend b).sides, x.isFinite := by
  induction points generalizing b with
  | nil => exact hb
  | cons p rest ih =>
      obtain ⟨hp, hrest⟩ := List.forall_mem_cons.mp hpoints
      exact ih hrest (isFinite_extend hb hp)

/-- The box around an outline of finite points has finite sides: those of the box that it starts
from are the largest finite numbers. -/
theorem Outline.isFinite_box {points : List Point} (hpoints : ∀ p ∈ points, p.isFinite) :
    ∀ x ∈ (box points).sides, x.isFinite :=
  Bbox.isFinite_foldl_extend hpoints (List.all_eq_true.mp rfl)

/-! ### Checked shapes -/

/-- Whether a number is a finite number of degrees, up to a bound on either side of zero. -/
structure Binary64.InRange (bound x : Binary64) : Prop where
  isFinite : x.isFinite
  negate_le : bound.negate ≤ x
  le : x ≤ bound

/-- Whether a point lies on the map: its latitude is one of ±90 degrees, its longitude one of ±180
degrees. -/
structure Point.OnMap (p : Point) : Prop where
  lat : Binary64.InRange (.ofNat 90) p.lat
  lon : Binary64.InRange (.ofNat 180) p.lon

/-- A latitude is accepted between minus ninety and ninety. What is no number is within no bounds,
and is refused with the infinite numbers. -/
theorem checkLatitude_eq_ok_iff {x : Binary64} :
    checkLatitude x = .ok () ↔ (Binary64.ofNat 90).negate ≤ x ∧ x ≤ .ofNat 90 := by
  simp [checkLatitude, Binary64.isWithin]

theorem checkLongitude_eq_ok_iff {x : Binary64} :
    checkLongitude x = .ok () ↔ (Binary64.ofNat 180).negate ≤ x ∧ x ≤ .ofNat 180 := by
  simp [checkLongitude, Binary64.isWithin]

/-- The points that are accepted are those on the map, both coordinates being checked in turn. -/
theorem Point.check_eq_ok_iff {p : Point} : p.check = .ok () ↔ p.OnMap := by
  rw [check]
  split_ifs with hinfinite
  · refine iff_of_false nofun fun h => ?_
    simp [isFinite, h.lat.isFinite, h.lon.isFinite] at hinfinite
  · rw [Bool.not_eq_true, Bool.not_eq_false'] at hinfinite
    obtain ⟨hlat, hlon⟩ := Bool.and_eq_true_iff.mp hinfinite
    rw [bind_check_eq_ok_iff, checkLatitude_eq_ok_iff, checkLongitude_eq_ok_iff]
    exact ⟨fun h => ⟨⟨hlat, h.1.1, h.1.2⟩, hlon, h.2.1, h.2.2⟩,
      fun h => ⟨⟨h.lat.negate_le, h.lat.le⟩, h.lon.negate_le, h.lon.le⟩⟩

/-- The outlines that are accepted are those of at least three points, all on the map. Neither their
order nor repetitions among them are looked at. -/
theorem Outline.check_eq_ok_iff {points : List Point} :
    Outline.check points = .ok () ↔ 3 ≤ points.length ∧ ∀ p ∈ points, p.OnMap := by
  rw [check]
  split_ifs with hlength
  · exact iff_of_false nofun fun h => absurd h.1 (Nat.not_le.mpr hlength)
  · rw [forM_eq_ok_iff]
    simp only [Point.check_eq_ok_iff, Nat.not_lt.mp hlength, true_and]

/-- The corners of a box are on the map if its sides are within the ranges of their coordinates. -/
theorem Bbox.onMap_corners_iff {b : Bbox} :
    (∀ p ∈ b.corners, p.OnMap) ↔
      (Binary64.InRange (.ofNat 90) b.south ∧ Binary64.InRange (.ofNat 90) b.north) ∧
        Binary64.InRange (.ofNat 180) b.west ∧ Binary64.InRange (.ofNat 180) b.east := by
  simp only [corners, List.forall_mem_cons]
  exact ⟨fun ⟨hsw, hse, _, hnw, _⟩ => ⟨⟨hsw.lat, hnw.lat⟩, hsw.lon, hse.lon⟩,
    fun ⟨⟨hs, hn⟩, hw, he⟩ => ⟨⟨hs, hw⟩, ⟨hs, he⟩, ⟨hn, he⟩, ⟨hn, hw⟩,
      fun _ hp => absurd hp List.not_mem_nil⟩⟩

/-- The boxes that are accepted are those whose corners are on the map and whose south does not lie
north of their north. Nothing is asked of west and east together. -/
theorem Bbox.check_eq_ok_iff {b : Bbox} :
    b.check = .ok () ↔ b.south ≤ b.north ∧ ∀ p ∈ b.corners, p.OnMap := by
  rw [check, onMap_corners_iff]
  split_ifs with hinfinite hinverted
  · refine iff_of_false nofun ?_
    rintro ⟨-, ⟨hs, hn⟩, hw, he⟩
    simp [sides, hs.isFinite, hn.isFinite, hw.isFinite, he.isFinite] at hinfinite
  · exact iff_of_false nofun fun h => absurd h.1.2.2 (not_le.mpr hinverted.2.2)
  · rw [Bool.not_eq_true, Bool.not_eq_false', List.all_eq_true] at hinfinite
    simp only [sides, List.forall_mem_cons] at hinfinite
    obtain ⟨hsouth, hwest, hnorth, heast, -⟩ := hinfinite
    have hsouth' := Binary64.isNaN_of_isFinite hsouth
    have hnorth' := Binary64.isNaN_of_isFinite hnorth
    have hordered : b.south ≤ b.north :=
      ⟨hsouth', hnorth', not_lt.mp fun hrank => hinverted ⟨hnorth', hsouth', hrank⟩⟩
    simp only [bind_check_eq_ok_iff, checkLatitude_eq_ok_iff, checkLongitude_eq_ok_iff]
    constructor
    · rintro ⟨hs, hn, hw, he⟩
      exact ⟨hordered, ⟨⟨hsouth, hs.1, hs.2⟩, hnorth, hn.1, hn.2⟩, ⟨hwest, hw.1, hw.2⟩,
        heast, he.1, he.2⟩
    · rintro ⟨-, ⟨hs, hn⟩, hw, he⟩
      exact ⟨⟨hs.negate_le, hs.le⟩, ⟨hn.negate_le, hn.le⟩, ⟨hw.negate_le, hw.le⟩,
        he.negate_le, he.le⟩

theorem Point.OnMap.isFinite {p : Point} (h : p.OnMap) : p.isFinite :=
  Bool.and_eq_true_iff.mpr ⟨h.lat.isFinite, h.lon.isFinite⟩

/-- So a box that is accepted has finite sides, whichever way it was given. -/
theorem Bbox.isFinite_of_check {b : Bbox} (h : b.check = .ok ()) : ∀ x ∈ b.sides, x.isFinite := by
  obtain ⟨⟨hsouth, hnorth⟩, hwest, heast⟩ := onMap_corners_iff.mp (check_eq_ok_iff.mp h).2
  simp only [sides, List.forall_mem_cons]
  exact ⟨hsouth.isFinite, hwest.isFinite, hnorth.isFinite, heast.isFinite,
    fun _ hx => absurd hx List.not_mem_nil⟩

theorem Outline.isFinite_of_check {points : List Point} (h : Outline.check points = .ok ()) :
    ∀ p ∈ points, p.isFinite :=
  fun p hp => ((check_eq_ok_iff.mp h).2 p hp).isFinite

/-- Whether each one of some points is equal to one of the points that cover them. -/
def Point.Covers (points covered : List Point) : Prop := ∀ p ∈ covered, ∃ q ∈ points, q.Equal p

theorem Point.equal_self {p : Point} (h : p.isFinite) : p.Equal p :=
  equal_self_iff.mpr fun x hx => Binary64.isNaN_of_isFinite (isFinite_iff.mp h x hx)

/-- Some of finitely given finite points are covered by all of them. That they are finite is needed,
as what is no number is not even equal to itself. -/
theorem Point.covers_of_subset {points covered : List Point} (h : covered ⊆ points)
    (hfinite : ∀ p ∈ points, p.isFinite) : Covers points covered :=
  fun p hp => ⟨p, h hp, equal_self (hfinite p (h hp))⟩

/-- The outline of a polygon consists of positions of its outer ring. Holes and closing positions
are dropped, and nothing is added. -/
theorem Polygon.outline_subset (p : Polygon) : p.outline ⊆ p.exterior.map Position.toPoint := by
  unfold outline
  dsimp only
  split_ifs
  · exact List.map_subset _ (List.dropLast_subset p.exterior)
  · exact List.Subset.refl _

/-- The position that closes a ring is equal to the first one, so the outline shows it although it
leaves it out. -/
theorem Polygon.covers_exterior {p : Polygon} (h : ∀ point ∈ p.outline, point.isFinite) :
    Point.Covers p.outline (p.exterior.map Position.toPoint) := by
  unfold outline at h ⊢
  dsimp only at h ⊢
  split_ifs at h ⊢ with hclosed
  · obtain ⟨hlength, hclosed⟩ := hclosed
    obtain ⟨ring, last, hring⟩ := p.exterior.eq_nil_or_concat'.resolve_left
      (List.ne_nil_of_length_pos (by omega))
    rw [hring, List.length_append, List.length_singleton] at hlength
    obtain ⟨first, rest, rfl⟩ := List.exists_cons_of_length_pos (l := ring) (by omega)
    rw [hring, List.dropLast_concat] at h ⊢
    rw [hring, Position.IsClosed, List.getLast?_concat] at hclosed
    have hequal : first.Equal last := hclosed
    rw [List.map_append]
    intro point hpoint
    rcases List.mem_append.mp hpoint with hmem | hmem
    · exact ⟨point, hmem, Point.equal_self (h point hmem)⟩
    · obtain rfl := List.mem_singleton.mp hmem
      exact ⟨first.toPoint, List.mem_cons_self, hequal.2, hequal.1⟩
  · exact fun point hpoint => ⟨point, hpoint, Point.equal_self (h point hpoint)⟩

/-- The position that closes a ring is finite although no check looks at it: it is equal to the
first position, which is checked. -/
theorem Polygon.isFinite_exterior {p : Polygon} (h : ∀ point ∈ p.outline, point.isFinite) :
    ∀ point ∈ p.exterior.map Position.toPoint, point.isFinite := by
  intro point hpoint
  obtain ⟨q, hq, hequal⟩ := covers_exterior h point hpoint
  obtain ⟨hlat, hlon⟩ := Bool.and_eq_true_iff.mp (h q hq)
  exact Bool.and_eq_true_iff.mpr ⟨hequal.1.isFinite hlat, hequal.2.isFinite hlon⟩

/-! ### Resolved regions -/

/-- The coordinates of a region are finite if the sides of its box and the points of its outline
are. -/
theorem Region.isFinite_iff {region : Region} :
    (∀ x ∈ region.coordinates, x.isFinite) ↔
      (∀ x ∈ region.bbox.sides, x.isFinite) ∧ ∀ p ∈ region.outline, p.isFinite := by
  simp only [coordinates, List.forall_mem_append, List.forall_mem_flatMap, Point.isFinite_iff]

/-- What is known of a region that a resolver gives, from whatever it was given. Regions that
callers make themselves need not have either property. -/
structure Region.Resolved (region : Region) : Prop where
  /-- Its name comes from its forms. -/
  name_eq : region.name = SetName.ofKey (Region.key region.bbox region.outline region.encoding)
  /-- None of its coordinates is infinite or no number. -/
  isFinite : ∀ x ∈ region.coordinates, x.isFinite

namespace Region

variable {region : Region}

/-- A region is resolved if it is made of finite forms, since its name is made of its key. -/
theorem resolved_ofForms {bbox : Bbox} {outline : List Point} (encoding : Encoding)
    (hbbox : ∀ x ∈ bbox.sides, x.isFinite) (houtline : ∀ p ∈ outline, p.isFinite) :
    (ofForms bbox outline encoding).Resolved where
  name_eq := rfl
  isFinite := Region.isFinite_iff.mpr ⟨hbbox, houtline⟩

/-- A region whose coordinates are finite is equal to itself. This is what lets two selections share
its area. -/
theorem equal_self (h : ∀ x ∈ region.coordinates, x.isFinite) : region.Equal region :=
  equal_self_iff.mpr fun x hx => Binary64.isNaN_of_isFinite (h x hx)

/-- So a resolved region is equal to itself, whichever text it was read from. -/
theorem Resolved.equal_self (h : region.Resolved) : region.Equal region :=
  Region.equal_self h.isFinite

end Region

namespace Resolver

variable {resolver : Resolver} {region : Region}

/-- A box that is resolved was accepted, and gets its corners for an outline. -/
theorem ofBbox_eq_ok_iff {b : Bbox} :
    resolver.ofBbox b = .ok region ↔
      b.check = .ok () ∧ region = Region.ofForms b b.corners (resolver.encoding .bbox) := by
  rw [ofBbox, bind_eq_ok_iff]
  exact ⟨fun ⟨(), hcheck, h⟩ => ⟨hcheck, (Except.ok.inj h).symm⟩,
    fun ⟨hcheck, h⟩ => ⟨(), hcheck, congrArg Except.ok h.symm⟩⟩

/-- An outline that is resolved was accepted, and gets the box around it for a box. -/
theorem ofOutline_eq_ok_iff {points : List Point} :
    resolver.ofOutline points = .ok region ↔ Outline.check points = .ok () ∧
      region = Region.ofForms (Outline.box points) points (resolver.encoding .poly) := by
  rw [ofOutline, bind_eq_ok_iff]
  exact ⟨fun ⟨(), hcheck, h⟩ => ⟨hcheck, (Except.ok.inj h).symm⟩,
    fun ⟨hcheck, h⟩ => ⟨(), hcheck, congrArg Except.ok h.symm⟩⟩

/-- What a box is resolved to is a resolved region: the box was checked, and its corners are made of
its sides. -/
theorem resolved_of_ofBbox {b : Bbox} (h : resolver.ofBbox b = .ok region) : region.Resolved := by
  obtain ⟨hcheck, rfl⟩ := ofBbox_eq_ok_iff.mp h
  have hsides := Bbox.isFinite_of_check hcheck
  exact Region.resolved_ofForms _ hsides (Bbox.isFinite_corners hsides)

/-- So is what an outline is resolved to, the box around it being made of its coordinates. -/
theorem resolved_of_ofOutline {points : List Point} (h : resolver.ofOutline points = .ok region) :
    region.Resolved := by
  obtain ⟨hcheck, rfl⟩ := ofOutline_eq_ok_iff.mp h
  have hpoints := Outline.isFinite_of_check hcheck
  exact Region.resolved_ofForms _ (Outline.isFinite_box hpoints) hpoints

end Resolver

end Overpass
