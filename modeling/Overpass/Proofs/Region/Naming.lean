import Mathlib.Data.List.Forall2
import Overpass.Proofs.Program.Join
import Overpass.Proofs.Region.Box
import Overpass.Proofs.Region.Reading

/-!
# The names of regions from equal input

The name of a resolved region is a digest of the texts of both of its forms. Numbers that are equal
have the same text unless both are zeros and their signs differ: only then are they written
differently. So equal boxes or outlines resolve to one and the same region as long as their zeros
have the same signs, and selections that are made apart from each other share its area once their
programs are merged. Where the signs of zeros differ, the regions are still equal in all but their
names, but the names come from different texts, and the areas stay apart unless the digests of these
texts happen to be the same.

## Main Definitions

* `Place.Compared`: how two places compare that are given by equal numbers

## Main Statements

* `Binary64.eq_of_forall₂_equal`: equal numbers of the same signs are the same
* `Region.forms_eq_of_key_eq`: the key of a region tells both of its forms
* `Draft.length_areas_eq_one_iff`: when two selections share an area
* `Resolver.names_of_equal_input`: what the names of regions from equal input depend on
-/

namespace Overpass

/-! ### Equal numbers -/

namespace Binary64

variable {x y : Binary64} {xs ys : List Binary64}

/-- Equal numbers of the same sign have the same bits. So the sign of a zero is all that equality
does not see. -/
theorem Equal.eq_of_negative (h : x.Equal y) (hsign : x.negative = y.negative) : x = y := by
  obtain ⟨-, -, hrank⟩ := h
  obtain ⟨xnegative, xmagnitude, hxlt⟩ := x
  obtain ⟨ynegative, ymagnitude, hylt⟩ := y
  obtain rfl : xnegative = ynegative := hsign
  have hmagnitude : xmagnitude = ymagnitude := by
    cases xnegative <;> simpa [rank] using hrank
  subst hmagnitude
  rfl

/-- **Equal numbers of the same signs are the same**, taken one by one from two lists. -/
theorem eq_of_forall₂_equal (h : List.Forall₂ Equal xs ys)
    (hsigns : xs.map negative = ys.map negative) : xs = ys := by
  induction h with
  | nil => rfl
  | cons hequal _ ih =>
      rw [List.map_cons, List.map_cons, List.cons.injEq] at hsigns
      rw [hequal.eq_of_negative hsigns.1, ih hsigns.2]

end Binary64

/-- A box is told by its four sides in their order. -/
theorem Bbox.sides_injective : Function.Injective sides := by
  rintro ⟨⟩ ⟨⟩ h
  simpa [sides] using h

theorem Bbox.Equal.forall₂_sides {b c : Bbox} (h : b.Equal c) :
    List.Forall₂ Binary64.Equal b.sides c.sides := by
  obtain ⟨hsouth, hwest, hnorth, heast⟩ := h
  exact .cons hsouth (.cons hwest (.cons hnorth (.cons heast .nil)))

theorem Bbox.Equal.allEqual_corners {b c : Bbox} (h : b.Equal c) :
    Point.AllEqual b.corners c.corners := by
  obtain ⟨hsouth, hwest, hnorth, heast⟩ := h
  exact ⟨⟨hsouth, hwest⟩, ⟨hsouth, heast⟩, ⟨hnorth, heast⟩, ⟨hnorth, hwest⟩, trivial⟩

namespace Point.AllEqual

variable {points others : List Point}

/-- Equal outlines have equal coordinates, one by one, and so the same number of points. -/
theorem forall₂_coordinates (h : AllEqual points others) :
    List.Forall₂ Binary64.Equal (points.flatMap coordinates) (others.flatMap coordinates) := by
  induction points generalizing others with
  | nil =>
      cases others with
      | nil => exact .nil
      | cons q others => cases h
  | cons p points ih =>
      cases others with
      | nil => cases h
      | cons q others => exact .cons h.1.1 (.cons h.1.2 (ih h.2))

/-- Equal outlines cover each other, and so the boxes around them are equal. -/
theorem covers (h : AllEqual points others) : Covers points others := by
  induction points generalizing others with
  | nil =>
      cases others with
      | nil => exact fun _ hp => absurd hp List.not_mem_nil
      | cons q others => cases h
  | cons p points ih =>
      cases others with
      | nil => cases h
      | cons q others =>
          refine List.forall_mem_cons.mpr ⟨⟨p, List.mem_cons_self, h.1⟩, fun r hr => ?_⟩
          obtain ⟨s, hs, hequal⟩ := ih h.2 r hr
          exact ⟨s, List.mem_cons_of_mem p hs, hequal⟩

end Point.AllEqual

/-- The boxes around equal outlines are equal. They need not be the same: which of two zeros a box
has for a side depends on the order of the points. -/
theorem Outline.equal_box {points others : List Point} (h : Point.AllEqual points others)
    (hpoints : Outline.check points = .ok ()) (hothers : Outline.check others = .ok ()) :
    (box points).Equal (box others) :=
  (Bbox.isAround_box hpoints).equal (Bbox.isAround_box hothers) h.covers h.symm.covers

/-! ### Keys -/

/-- Boxes of finite sides that are printed alike are the same, bit for bit, since a box is read back
from its text. -/
theorem Bbox.render_inj {b c : Bbox} (hb : ∀ x ∈ b.sides, x.isFinite)
    (hc : ∀ x ∈ c.sides, x.isFinite) (h : b.render = c.render) : b = c := by
  have hread := ofText_render hb
  rw [h, ofText_render hc] at hread
  exact (Except.ok.inj hread).symm

/-- An outline of finite points is read back from its numbers. -/
theorem Outline.ofText_numbers {points : List Point} (hpoints : ∀ p ∈ points, p.isFinite) :
    ofText (String.ofList (numbers points)) = .ok points := by
  refine ofText_of_spells hpoints ?_
  rw [String.toList_ofList]
  exact Text.spells_words _ _

theorem Outline.render_inj {points others : List Point} (hpoints : ∀ p ∈ points, p.isFinite)
    (hothers : ∀ p ∈ others, p.isFinite) (h : render points = render others) :
    points = others := by
  have hnumbers : numbers points = numbers others := by
    have htext := congrArg String.toList h
    simpa [toList_render] using htext
  have hread := ofText_numbers hpoints
  rw [hnumbers, ofText_numbers hothers] at hread
  exact (Except.ok.inj hread).symm

namespace Region

/-- The two forms and the encoding stand apart in a key: the mark between them occurs in none of
them. -/
theorem splitOn_key (bbox : Bbox) (outline : List Point) (encoding : Encoding) :
    (key bbox outline encoding).toList.splitOn '|' =
      [bbox.render.toList, (Outline.render outline).toList, encoding.label.toList] := by
  have hkey : (key bbox outline encoding).toList = ['|'].intercalate
      [bbox.render.toList, (Outline.render outline).toList, encoding.label.toList] := by
    simp [key]
  have hbbox : '|' ∉ bbox.render.toList := by
    have hnumbers := Bbox.notMem_numbers (b := bbox) (c := '|') rfl (by decide)
    simp [Bbox.toList_render, hnumbers]
  have houtline : '|' ∉ (Outline.render outline).toList := by
    have hnumbers : '|' ∉ Outline.numbers outline := Outline.notMem_numbers rfl (by decide)
    simp [Outline.toList_render, hnumbers]
  have hencoding : '|' ∉ encoding.label.toList := by
    cases encoding <;> decide
  rw [hkey, List.splitOn_intercalate]
  · simp [hbbox, houtline, hencoding]
  · exact List.cons_ne_nil _ _

/-- Equal keys are equal in each of their parts, as the marks that separate the parts are at the
same places. -/
theorem parts_eq_of_key_eq {b c : Bbox} {points others : List Point} {e f : Encoding}
    (h : key b points e = key c others f) :
    b.render = c.render ∧ Outline.render points = Outline.render others ∧ e.label = f.label := by
  have hparts := splitOn_key b points e
  rw [h, splitOn_key] at hparts
  simpa only [List.cons.injEq, String.toList_inj, and_true, eq_comm] using hparts

/-- **The key of a region tells both of its forms**, as long as all of their numbers are finite.
Numbers that are none are printed by one word, whatever their bits are. -/
theorem forms_eq_of_key_eq {a b : Region} (ha : ∀ x ∈ a.coordinates, x.isFinite)
    (hb : ∀ x ∈ b.coordinates, x.isFinite)
    (h : key a.bbox a.outline a.encoding = key b.bbox b.outline b.encoding) :
    a.bbox = b.bbox ∧ a.outline = b.outline := by
  obtain ⟨habbox, haoutline⟩ := isFinite_iff.mp ha
  obtain ⟨hbbbox, hboutline⟩ := isFinite_iff.mp hb
  obtain ⟨hbbox, houtline, -⟩ := parts_eq_of_key_eq h
  exact ⟨Bbox.render_inj habbox hbbbox hbbox, Outline.render_inj haoutline hboutline houtline⟩

end Region

/-! ### Shared areas -/

section Merging

variable {resolver : Resolver} {place other : Place} {kind kind' : ElementKind}
  {tags tags' : TagFilter} {m n : SetName} {q r : Query} {a b : Region} {merged : Program}

/-- A box that is resolved becomes an area of its own. So does an outline. -/
theorem Place.resolve_bbox {b : Bbox} (h : resolver.ofBbox b = .ok a) (kind : ElementKind) :
    Place.resolve resolver kind (.bbox b) = .ok (Place.shared kind a) := by
  rw [Place.resolve, h]
  rfl

theorem Place.resolve_outline {points : List Point} (h : resolver.ofOutline points = .ok a)
    (kind : ElementKind) :
    Place.resolve resolver kind (.outline points) = .ok (Place.shared kind a) := by
  rw [Place.resolve, h]
  rfl

/-- What is selected in a region with an area of its own is one area and one selection in it. The
selection may not have the name of the area. -/
theorem Draft.eq_extend_of_shared
    (hresolve : place.resolve resolver kind = .ok (Place.shared kind a))
    (h : Draft.finish resolver kind tags place m = .ok q) :
    m ≠ a.name ∧ q = (Program.empty.append (.area ⟨kind, a⟩)).extend
      (.selection ⟨m, kind, .named a.name, tags⟩) := by
  obtain ⟨resolved, hresolved, h⟩ := bind_eq_ok_iff.mp h
  rw [hresolve] at hresolved
  cases hresolved
  obtain ⟨extended, hinsert, h⟩ := bind_eq_ok_iff.mp h
  cases h
  have hinserted : (Place.shared kind a).1.insert (.selection ⟨m, kind, .named a.name, tags⟩) =
      .ok extended := hinsert
  rw [Program.insert_eq_of_not_absorbs Formed.not_absorbs_shared] at hinserted
  split_ifs at hinserted with hbound
  cases hinserted
  exact ⟨fun heq => hbound (List.mem_singleton.mpr heq), rfl⟩

/-- **Two selections in regions with areas of their own share one area if and only if the regions
have the same name.** -/
theorem Draft.length_areas_eq_one_iff
    (hplace : place.resolve resolver kind = .ok (Place.shared kind a))
    (hother : other.resolve resolver kind' = .ok (Place.shared kind' b))
    (hq : Draft.finish resolver kind tags place m = .ok q)
    (hr : Draft.finish resolver kind' tags' other n = .ok r)
    (hmerge : q.program.merge r.program = .ok merged) :
    merged.areas.length = 1 ↔ a.name = b.name := by
  obtain ⟨-, rfl⟩ := eq_extend_of_shared hplace hq
  obtain ⟨hfree, rfl⟩ := eq_extend_of_shared hother hr
  obtain ⟨hcompatible, rfl⟩ :=
    (Program.merge_eq_ok_iff _ (Formed.shared hfree).wellFormed.nodup).mp hmerge
  exact hcompatible.length_areas_join_eq_one_iff rfl rfl

end Merging

/-! ### Equal input -/

/-- How two places compare that are given by equal numbers `xs` and `ys`, and that are resolved to
the regions `a` and `b`. -/
structure Place.Compared (resolver : Resolver) (place other : Place) (xs ys : List Binary64)
    (a b : Region) : Prop where
  /-- Numbers of the same signs give the same region, name included. -/
  eq_of_signs : xs.map Binary64.negative = ys.map Binary64.negative → a = b
  /-- Names come from the same text only if the numbers have the same signs. -/
  key_eq_iff : Region.key a.bbox a.outline a.encoding = Region.key b.bbox b.outline b.encoding ↔
    xs.map Binary64.negative = ys.map Binary64.negative
  /-- Nothing but the name can tell the regions apart. -/
  equal_iff : a.Equal b ↔ a.name = b.name
  /-- Selections in the two places share one area once merged if and only if the names are the
  same. -/
  shares_iff : ∀ (kind kind' : ElementKind) (tags tags' : TagFilter) (m n : SetName) (q r : Query)
    (merged : Program), Draft.finish resolver kind tags place m = .ok q →
      Draft.finish resolver kind' tags' other n = .ok r →
        q.program.merge r.program = .ok merged → (merged.areas.length = 1 ↔ a.name = b.name)

namespace Resolver

variable {resolver : Resolver} {place other : Place} {xs ys : List Binary64} {a b : Region}

/-- Places compare so if their regions are in equal forms and tell the numbers that they come
from. -/
theorem compared_of_forms (ha : a.Resolved) (hb : b.Resolved) (hequal : a.bbox.Equal b.bbox ∧
      Point.AllEqual a.outline b.outline ∧ a.encoding = b.encoding)
    (hnumbers : List.Forall₂ Binary64.Equal xs ys) (hsame : xs = ys → a = b)
    (hforms : a.bbox = b.bbox → a.outline = b.outline → xs = ys)
    (hplace : ∀ kind, place.resolve resolver kind = .ok (Place.shared kind a))
    (hother : ∀ kind, other.resolve resolver kind = .ok (Place.shared kind b)) :
    Place.Compared resolver place other xs ys a b where
  eq_of_signs hsigns := hsame (Binary64.eq_of_forall₂_equal hnumbers hsigns)
  key_eq_iff := by
    constructor
    · intro hkey
      obtain ⟨hbbox, houtline⟩ := Region.forms_eq_of_key_eq ha.isFinite hb.isFinite hkey
      rw [hforms hbbox houtline]
    · intro hsigns
      rw [hsame (Binary64.eq_of_forall₂_equal hnumbers hsigns)]
  equal_iff := ⟨fun h => h.1, fun hname => ⟨hname, hequal⟩⟩
  shares_iff _ _ _ _ _ _ _ _ _ hq hr hmerge :=
    Draft.length_areas_eq_one_iff (hplace _) (hother _) hq hr hmerge

/-- How two equal boxes compare: all turns on the signs of their zeros. Outlines compare in the same
way. -/
theorem compared_of_ofBbox {b c : Bbox} {region twin : Region} (hequal : b.Equal c)
    (hregion : resolver.ofBbox b = .ok region) (htwin : resolver.ofBbox c = .ok twin) :
    Place.Compared resolver (.bbox b) (.bbox c) b.sides c.sides region twin := by
  have hplace := Place.resolve_bbox hregion
  have hother := Place.resolve_bbox htwin
  have hresolved := resolved_of_ofBbox hregion
  have hresolved' := resolved_of_ofBbox htwin
  obtain ⟨-, rfl⟩ := ofBbox_eq_ok_iff.mp hregion
  obtain ⟨-, rfl⟩ := ofBbox_eq_ok_iff.mp htwin
  refine compared_of_forms hresolved hresolved' ⟨hequal, hequal.allEqual_corners, rfl⟩
    hequal.forall₂_sides (fun hsides => ?_) (fun hbbox _ => congrArg Bbox.sides hbbox) hplace hother
  rw [Bbox.sides_injective hsides]

theorem compared_of_ofOutline {points others : List Point} {region twin : Region}
    (hequal : Point.AllEqual points others) (hregion : resolver.ofOutline points = .ok region)
    (htwin : resolver.ofOutline others = .ok twin) :
    Place.Compared resolver (.outline points) (.outline others)
      (points.flatMap Point.coordinates) (others.flatMap Point.coordinates) region twin := by
  have hplace := Place.resolve_outline hregion
  have hother := Place.resolve_outline htwin
  have hresolved := resolved_of_ofOutline hregion
  have hresolved' := resolved_of_ofOutline htwin
  obtain ⟨hpoints, rfl⟩ := ofOutline_eq_ok_iff.mp hregion
  obtain ⟨hothers, rfl⟩ := ofOutline_eq_ok_iff.mp htwin
  refine compared_of_forms hresolved hresolved'
    ⟨Outline.equal_box hequal hpoints hothers, hequal, rfl⟩ hequal.forall₂_coordinates
    (fun hsame => ?_) (fun _ houtline => congrArg (List.flatMap Point.coordinates) houtline) hplace
    hother
  have hnumbers := congrArg Outline.ofNumbers hsame
  rw [Outline.ofNumbers_flatMap, Outline.ofNumbers_flatMap] at hnumbers
  rw [hnumbers]

/-- **Equal boxes and equal outlines resolve to the same region, name included, if and only if their
zeros have the same signs**, up to names that come from different texts with the same digest.
Whatever the signs, the regions are equal in all but their names, and the names decide whether
selections in them share one area. -/
theorem names_of_equal_input (resolver : Resolver) :
    (∀ b c region twin, b.Equal c → resolver.ofBbox b = .ok region →
      resolver.ofBbox c = .ok twin →
        Place.Compared resolver (.bbox b) (.bbox c) b.sides c.sides region twin) ∧
    (∀ points others region twin, Point.AllEqual points others →
      resolver.ofOutline points = .ok region → resolver.ofOutline others = .ok twin →
        Place.Compared resolver (.outline points) (.outline others)
          (points.flatMap Point.coordinates) (others.flatMap Point.coordinates) region twin) :=
  ⟨fun _ _ _ _ => compared_of_ofBbox, fun _ _ _ _ => compared_of_ofOutline⟩

/-- The box of a gulf whose south is the equator, given by a zero of either sign. -/
def gulf (negative : Bool) : Bbox := ⟨.zero negative, .zero false, .ofNat 1, .ofNat 1⟩

/-- The region of a gulf, given as a box. -/
def gulfRegion (negative : Bool) : Region :=
  Region.ofForms (gulf negative) (gulf negative).corners .bbox

/-- The region of a gulf, given as an outline. -/
def gulfOutline (negative : Bool) : Region :=
  Region.ofForms (Outline.box (gulf negative).corners) (gulf negative).corners .poly

/-- The two boxes of a gulf are equal, and so are their outlines, but their keys are not. -/
theorem names_of_equal_input_gulf :
    (gulf false).Equal (gulf true) ∧ Point.AllEqual (gulf false).corners (gulf true).corners ∧
    (∀ negative, natural.ofBbox (gulf negative) = .ok (gulfRegion negative) ∧
      natural.ofOutline (gulf negative).corners = .ok (gulfOutline negative)) ∧
    Region.key (gulf false) (gulf false).corners .bbox ≠
      Region.key (gulf true) (gulf true).corners .bbox ∧
    Region.key (Outline.box (gulf false).corners) (gulf false).corners .poly ≠
      Region.key (Outline.box (gulf true).corners) (gulf true).corners .poly := by
  have hequal : (gulf false).Equal (gulf true) := by decide
  have hcorners : Point.AllEqual (gulf false).corners (gulf true).corners := by decide
  have hboxes : ∀ negative, natural.ofBbox (gulf negative) = .ok (gulfRegion negative) := by
    intro negative
    cases negative <;> rfl
  have houtlines : ∀ negative,
      natural.ofOutline (gulf negative).corners = .ok (gulfOutline negative) := by
    intro negative
    cases negative <;> rfl
  obtain ⟨hbox, houtline⟩ := names_of_equal_input natural
  have hkey := (hbox _ _ _ _ hequal (hboxes false) (hboxes true)).key_eq_iff
  have hkey' := (houtline _ _ _ _ hcorners (houtlines false) (houtlines true)).key_eq_iff
  exact ⟨hequal, hcorners, fun negative => ⟨hboxes negative, houtlines negative⟩,
    fun h => absurd (hkey.mp h) (by decide), fun h => absurd (hkey'.mp h) (by decide)⟩

/-- The nodes of a gulf, given as a box. -/
def gulfNodes (negative : Bool) (name : SetName) : Query where
  root := name
  program := ⟨[⟨.node, gulfRegion negative⟩],
    [⟨name, .node, .named (gulfRegion negative).name, .empty⟩], []⟩

/-- The names of the two boxes of a gulf differ, and selections in them do not share an area. -/
theorem gulf_names_ne :
    (gulf false).Equal (gulf true) ∧
    natural.ofBbox (gulf false) = .ok (gulfRegion false) ∧
    natural.ofBbox (gulf true) = .ok (gulfRegion true) ∧
    (gulfRegion false).name ≠ (gulfRegion true).name ∧
    Draft.finish natural .node .empty (.bbox (gulf false)) ⟨"a"⟩ = .ok (gulfNodes false ⟨"a"⟩) ∧
    Draft.finish natural .node .empty (.bbox (gulf true)) ⟨"b"⟩ = .ok (gulfNodes true ⟨"b"⟩) ∧
    ((gulfNodes false ⟨"a"⟩).program.merge (gulfNodes true ⟨"b"⟩).program).map
      (fun merged => merged.areas.length) = .ok 2 :=
  ⟨by decide, rfl, rfl, by decide +kernel, by decide +kernel, by decide +kernel, by decide +kernel⟩

end Resolver

end Overpass
