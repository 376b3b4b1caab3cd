import Overpass.Proofs.Region.Naming
import Overpass.Proofs.Region.Shape
import Overpass.Proofs.SetName.Generated

/-!
# Keys tell regions apart

The name of a resolved region is a digest of its key, a single text that shows the box, the outline
and the encoding one after the other. As long as the coordinates are finite, nothing about a region
is lost in its key: all bits of every coordinate, the order and number of the points and the
encoding can be told from it. So two regions that are not the same have different keys, and if they
still have the same name, these two keys have the same digest of 64 bits. Of coordinates that are no
numbers this cannot be said: the texts of all of them are the same.

## Main Definitions

* `Resolver.Gives`: the regions that resolvers give

## Main Statements

* `Region.key_inj`: equal keys come from equal forms
* `Region.Resolved.name_eq_iff`: when two resolved regions have the same name
* `Resolver.keys_unambiguous`: both for the regions that resolvers give
-/

namespace Overpass

theorem Encoding.label_injective : Function.Injective label := by
  intro e f h
  cases e <;> cases f <;> simp [label] at h ⊢

namespace Region

variable {a b : Region}

/-- **The key of finite forms tells the box, the outline and the encoding.** The parts are split at
their marks, and each of them is read back. -/
theorem key_inj {b c : Bbox} {points others : List Point} {e f : Encoding}
    (hb : ∀ x ∈ b.sides, x.isFinite) (hpoints : ∀ p ∈ points, p.isFinite)
    (hc : ∀ x ∈ c.sides, x.isFinite) (hothers : ∀ p ∈ others, p.isFinite) :
    key b points e = key c others f ↔ b = c ∧ points = others ∧ e = f := by
  constructor
  · intro h
    obtain ⟨hbbox, houtline, hlabel⟩ := parts_eq_of_key_eq h
    exact ⟨Bbox.render_inj hb hc hbbox, Outline.render_inj hpoints hothers houtline,
      Encoding.label_injective hlabel⟩
  · rintro ⟨rfl, rfl, rfl⟩
    rfl

/-- A resolved region is what its key tells: both forms are read back from the key, and the name is
made of it. -/
theorem Resolved.key_eq_iff (ha : a.Resolved) (hb : b.Resolved) :
    key a.bbox a.outline a.encoding = key b.bbox b.outline b.encoding ↔ a = b := by
  obtain ⟨habbox, haoutline⟩ := isFinite_iff.mp ha.isFinite
  obtain ⟨hbbbox, hboutline⟩ := isFinite_iff.mp hb.isFinite
  constructor
  · intro h
    obtain ⟨hbbox, houtline, hencoding⟩ := (key_inj habbox haoutline hbbbox hboutline).mp h
    have hname : a.name = b.name := by rw [ha.name_eq, hb.name_eq, h]
    cases a
    cases b
    cases hbbox
    cases houtline
    cases hencoding
    cases hname
    rfl
  · rintro rfl
    rfl

/-- Two resolved regions have the same name if and only if they are the same or their keys
collide. -/
theorem Resolved.name_eq_iff (ha : a.Resolved) (hb : b.Resolved) :
    a.name = b.name ↔ a = b ∨ Digest.Collide (key a.bbox a.outline a.encoding)
      (key b.bbox b.outline b.encoding) := by
  rw [ha.name_eq, hb.name_eq, SetName.ofKey_eq_ofKey_iff, ha.key_eq_iff hb]

end Region

namespace Resolver

variable {extent? : Polygon → Option Bbox} {region : Region}

/-- The regions that resolvers give, for a given way to find the box around a polygon. -/
inductive Gives (extent? : Polygon → Option Bbox) : Region → Prop
  | ofBbox {resolver : Resolver} {b : Bbox} {region : Region} :
      resolver.ofBbox b = .ok region → Gives extent? region
  | ofOutline {resolver : Resolver} {points : List Point} {region : Region} :
      resolver.ofOutline points = .ok region → Gives extent? region
  | ofPolygonBy {resolver : Resolver} {p : Polygon} {region : Region} :
      resolver.ofPolygonBy extent? p = .ok region → Gives extent? region

/-- Whichever way a region is given, what it is resolved to is a resolved region. -/
theorem Gives.resolved (hextent : Polygon.IsExtent extent?) (h : Gives extent? region) :
    region.Resolved := by
  cases h with
  | ofBbox h => exact resolved_of_ofBbox h
  | ofOutline h => exact resolved_of_ofOutline h
  | ofPolygonBy h => exact resolved_of_ofPolygonBy hextent h

/-- **Keys are unambiguous.** Keys of finite forms are equal only if the boxes, the outlines and the
encodings are, bit for bit and point for point. So two resolved regions have the same name if and
only if they are the same region or their keys are different texts with the same digest. -/
theorem keys_unambiguous (hextent : Polygon.IsExtent extent?) :
    (∀ (b c : Bbox) (points others : List Point) (e f : Encoding),
      (∀ x ∈ b.sides, x.isFinite) → (∀ p ∈ points, p.isFinite) →
      (∀ x ∈ c.sides, x.isFinite) → (∀ p ∈ others, p.isFinite) →
      (Region.key b points e = Region.key c others f ↔ b = c ∧ points = others ∧ e = f)) ∧
    ∀ a b : Region, Gives extent? a → Gives extent? b →
      (a.name = b.name ↔ a = b ∨ Digest.Collide (Region.key a.bbox a.outline a.encoding)
        (Region.key b.bbox b.outline b.encoding)) :=
  ⟨fun _ _ _ _ _ _ => Region.key_inj,
    fun _ _ ha hb => (ha.resolved hextent).name_eq_iff (hb.resolved hextent)⟩

/-- The region of a sail, printed in the given encoding. -/
def sailRegion (encoding : Encoding) : Region :=
  Region.ofForms (Outline.box sail) sail encoding

/-- A sail and the box around it: the same forms under two encodings have two keys, and the same
name only if these collide. -/
theorem keys_unambiguous_sail :
    Polygon.IsExtent Polygon.extent? ∧
    (∀ encoding, ofOutline ⟨some encoding⟩ sail = .ok (sailRegion encoding)) ∧
    Region.key (Outline.box sail) sail .poly ≠ Region.key (Outline.box sail) sail .bbox ∧
    ((sailRegion .poly).name = (sailRegion .bbox).name →
      Digest.Collide (Region.key (Outline.box sail) sail .poly)
        (Region.key (Outline.box sail) sail .bbox)) := by
  have hresolved : ∀ encoding, ofOutline ⟨some encoding⟩ sail = .ok (sailRegion encoding) :=
    fun _ => rfl
  have hsail : ∀ p ∈ sail, p.isFinite := Outline.isFinite_of_check rfl
  have hbox := Outline.isFinite_box hsail
  obtain ⟨hkeys, hnames⟩ := keys_unambiguous Polygon.isExtent_extent?
  refine ⟨Polygon.isExtent_extent?, hresolved, fun hkey => ?_, fun hname => ?_⟩
  · obtain ⟨-, -, hencoding⟩ := (hkeys _ _ _ _ _ _ hbox hsail hbox hsail).mp hkey
    cases hencoding
  · have hcases :=
      (hnames _ _ (.ofOutline (hresolved .poly)) (.ofOutline (hresolved .bbox))).mp hname
    exact hcases.resolve_left fun hsame => Encoding.noConfusion (congrArg Region.encoding hsame)

end Resolver

end Overpass
