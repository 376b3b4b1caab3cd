import Mathlib.Data.List.Basic
import Overpass.Definition

/-!
# Numeric equality

Regions are compared by the values of their coordinates and printed by their bits. The two differ in
a single case: zero has two signs, which are equal as numbers and print differently. Where no
coordinate is a negative zero, regions that are equal are the same region. In any case equality is
symmetric, so it does not matter which of two definitions was there first, and transitive, so it
does not matter through which third definition two of them are known to be equal. It is not
reflexive: what holds a NaN is not even equal to itself.

## Main Definitions

* `Region.coordinates`: all coordinates that a region holds, printed or not
* `Definition.regions`: the regions that a definition holds

## Main Statements

* `Binary64.Equal.eq`: equal numbers that are no negative zeros have the same bits
* `Region.Equal.eq`: equal regions without negative zeros are the same
* `Region.equal_self_iff`: a region is equal to itself if and only if it holds no NaN
* `Region.Equal.symm`, `Region.Equal.trans`: equality of regions is symmetric and transitive
-/

namespace Overpass

/-! ### Without negative zeros -/

/-- Equal numbers have equal signs unless one of them is a negative zero. In all other cases
equality of numbers is equality of their bits. -/
theorem Binary64.Equal.eq {x y : Binary64} (h : x.Equal y) (hx : x ≠ zero true)
    (hy : y ≠ zero true) : x = y := by
  obtain ⟨-, -, hrank⟩ := h
  obtain ⟨xnegative, xmagnitude, hxlt⟩ := x
  obtain ⟨ynegative, ymagnitude, hylt⟩ := y
  have hzero : ∀ magnitude hlt, (⟨true, magnitude, hlt⟩ : Binary64) ≠ zero true →
      magnitude ≠ 0 := by
    rintro magnitude hlt hne rfl
    exact hne rfl
  simp only [rank] at hrank
  -- Ranks of different signs are equal only if both magnitudes are zero.
  cases xnegative with
  | false =>
      cases ynegative with
      | false =>
          rw [if_neg Bool.false_ne_true, if_neg Bool.false_ne_true] at hrank
          have hmagnitude : xmagnitude = ymagnitude := by omega
          subst hmagnitude
          rfl
      | true =>
          have hpositive := hzero ymagnitude hylt hy
          rw [if_neg Bool.false_ne_true, if_pos rfl] at hrank
          omega
  | true =>
      have hpositive := hzero xmagnitude hxlt hx
      cases ynegative with
      | false =>
          rw [if_pos rfl, if_neg Bool.false_ne_true] at hrank
          omega
      | true =>
          rw [if_pos rfl, if_pos rfl] at hrank
          have hmagnitude : xmagnitude = ymagnitude := by omega
          subst hmagnitude
          rfl

/-- The two coordinates of a point. -/
def Point.coordinates (p : Point) : List Binary64 := [p.lat, p.lon]

/-- So points are the same if they are equal and no coordinate is a negative zero. The same holds of
outlines and of boxes. -/
theorem Point.Equal.eq {p q : Point} (h : p.Equal q) (hp : .zero true ∉ p.coordinates)
    (hq : .zero true ∉ q.coordinates) : p = q := by
  obtain ⟨plat, plon⟩ := p
  obtain ⟨qlat, qlon⟩ := q
  simp only [coordinates, List.mem_cons, List.not_mem_nil, or_false, not_or] at hp hq
  have hlat : plat = qlat := h.1.eq (Ne.symm hp.1) (Ne.symm hq.1)
  have hlon : plon = qlon := h.2.eq (Ne.symm hp.2) (Ne.symm hq.2)
  rw [hlat, hlon]

theorem Point.AllEqual.eq {ps qs : List Point} (h : Point.AllEqual ps qs)
    (hps : .zero true ∉ ps.flatMap Point.coordinates)
    (hqs : .zero true ∉ qs.flatMap Point.coordinates) : ps = qs := by
  induction ps generalizing qs with
  | nil =>
      cases qs with
      | nil => rfl
      | cons q qs => cases h
  | cons p ps ih =>
      cases qs with
      | nil => cases h
      | cons q qs =>
          rw [List.flatMap_cons, List.mem_append, not_or] at hps hqs
          rw [h.1.eq hps.1 hqs.1, ih h.2 hps.2 hqs.2]

theorem Bbox.Equal.eq {a b : Bbox} (h : a.Equal b) (ha : .zero true ∉ a.sides)
    (hb : .zero true ∉ b.sides) : a = b := by
  obtain ⟨asouth, awest, anorth, aeast⟩ := a
  obtain ⟨bsouth, bwest, bnorth, beast⟩ := b
  simp only [sides, List.mem_cons, List.not_mem_nil, or_false, not_or] at ha hb
  obtain ⟨hasouth, hawest, hanorth, haeast⟩ := ha
  obtain ⟨hbsouth, hbwest, hbnorth, hbeast⟩ := hb
  have hsouth : asouth = bsouth := h.1.eq (Ne.symm hasouth) (Ne.symm hbsouth)
  have hwest : awest = bwest := h.2.1.eq (Ne.symm hawest) (Ne.symm hbwest)
  have hnorth : anorth = bnorth := h.2.2.1.eq (Ne.symm hanorth) (Ne.symm hbnorth)
  have heast : aeast = beast := h.2.2.2.eq (Ne.symm haeast) (Ne.symm hbeast)
  rw [hsouth, hwest, hnorth, heast]

/-- All coordinates that a region holds: the sides of its box and those of the points of its
outline. -/
def Region.coordinates (region : Region) : List Binary64 :=
  region.bbox.sides ++ region.outline.flatMap Point.coordinates

/-- Regions without negative zeros that are equal are the same. Their two forms are compared number
by number, and their names and encodings exactly. -/
theorem Region.Equal.eq {a b : Region} (h : a.Equal b) (ha : .zero true ∉ a.coordinates)
    (hb : .zero true ∉ b.coordinates) : a = b := by
  obtain ⟨aname, abox, aoutline, aencoding⟩ := a
  obtain ⟨bname, bbox, boutline, bencoding⟩ := b
  rw [coordinates, List.mem_append, not_or] at ha hb
  obtain ⟨hname, hbox, houtline, hencoding⟩ := h
  have hboxes : abox = bbox := hbox.eq ha.1 hb.1
  have houtlines : aoutline = boutline := houtline.eq ha.2 hb.2
  rw [show aname = bname from hname, hboxes, houtlines,
    show aencoding = bencoding from hencoding]

/-! ### Definitions -/

/-- The region that a scope holds. -/
def Scope.regions : Scope → List Region
  | named _ => []
  | inline region => [region]

/-- The region that a definition holds. -/
def Definition.regions : Definition → List Region
  | area a => [a.region]
  | selection s => s.scope.regions
  | operation _ => []

/-- Whether no coordinate of a definition is a negative zero, also in the form of a region that is
not printed. -/
def Definition.NoNegativeZero (d : Definition) : Prop :=
  ∀ region ∈ d.regions, .zero true ∉ region.coordinates

instance (d : Definition) : Decidable d.NoNegativeZero :=
  inferInstanceAs (Decidable (∀ region ∈ d.regions, _))

theorem Area.Equal.eq {a b : Area} (h : a.Equal b) (ha : (Definition.area a).NoNegativeZero)
    (hb : (Definition.area b).NoNegativeZero) : a = b := by
  have hregion : a.region = b.region :=
    h.2.eq (ha _ (List.mem_singleton.mpr rfl)) (hb _ (List.mem_singleton.mpr rfl))
  obtain ⟨akind, aregion⟩ := a
  obtain ⟨bkind, bregion⟩ := b
  rw [show akind = bkind from h.1, show aregion = bregion from hregion]

/-- Selections that are equal differ in the inline region at most, as their names, kinds and tags
are compared exactly. -/
theorem Selection.Equal.eq {s t : Selection} (h : s.Equal t)
    (hs : (Definition.selection s).NoNegativeZero)
    (ht : (Definition.selection t).NoNegativeZero) : s = t := by
  obtain ⟨sname, skind, sscope, stags⟩ := s
  obtain ⟨tname, tkind, tscope, ttags⟩ := t
  obtain ⟨hname, hkind, hscope, htags⟩ := h
  have hscopes : sscope = tscope := by
    cases sscope with
    | named m =>
        cases tscope with
        | named n => exact congrArg Scope.named hscope
        | inline region => cases hscope
    | inline region =>
        cases tscope with
        | named n => cases hscope
        | inline other =>
            have hregion : region.Equal other := hscope
            rw [hregion.eq (hs _ (List.mem_singleton.mpr rfl)) (ht _ (List.mem_singleton.mpr rfl))]
  rw [show sname = tname from hname, show skind = tkind from hkind, hscopes,
    show stags = ttags from htags]

/-! ### Equality of a region with itself -/

/-- A number is equal to itself unless it is none. This one exception is why equality is not
reflexive here, and with it neither is the agreement of definitions. -/
theorem Binary64.equal_self_iff {x : Binary64} : x.Equal x ↔ x.isNaN = false := by
  simp [Equal]

theorem Point.equal_self_iff {p : Point} :
    p.Equal p ↔ ∀ x ∈ p.coordinates, x.isNaN = false := by
  simp [Equal, coordinates, Binary64.equal_self_iff]

/-- An outline is equal to itself if all of its coordinates are numbers. -/
theorem Point.allEqual_self_iff {points : List Point} :
    AllEqual points points ↔ ∀ x ∈ points.flatMap coordinates, x.isNaN = false := by
  induction points with
  | nil => simp [AllEqual]
  | cons p points ih =>
      rw [List.flatMap_cons, List.forall_mem_append, ← ih, ← equal_self_iff]
      rfl

theorem Bbox.equal_self_iff {b : Bbox} : b.Equal b ↔ ∀ x ∈ b.sides, x.isNaN = false := by
  simp [Equal, sides, Binary64.equal_self_iff]

/-- A region is equal to itself if and only if none of its coordinates is a NaN, in either of its
forms. Areas are shared on this condition. -/
theorem Region.equal_self_iff {region : Region} :
    region.Equal region ↔ ∀ x ∈ region.coordinates, x.isNaN = false := by
  rw [coordinates, List.forall_mem_append, ← Bbox.equal_self_iff, ← Point.allEqual_self_iff]
  simp [Equal]

/-! ### Symmetry -/

/-- Equality of numbers is symmetric, and so is all equality that is put together from it. -/
theorem Binary64.Equal.symm {x y : Binary64} (h : x.Equal y) : y.Equal x :=
  ⟨h.2.1, h.1, h.2.2.symm⟩

theorem Point.Equal.symm {p q : Point} (h : p.Equal q) : q.Equal p :=
  ⟨Binary64.Equal.symm h.1, Binary64.Equal.symm h.2⟩

theorem Point.AllEqual.symm {ps qs : List Point} (h : Point.AllEqual ps qs) :
    Point.AllEqual qs ps := by
  induction ps generalizing qs with
  | nil =>
      cases qs with
      | nil => trivial
      | cons q qs => cases h
  | cons p ps ih =>
      cases qs with
      | nil => cases h
      | cons q qs => exact ⟨h.1.symm, ih h.2⟩

theorem Bbox.Equal.symm {a b : Bbox} (h : a.Equal b) : b.Equal a := by
  obtain ⟨hsouth, hwest, hnorth, heast⟩ := h
  exact ⟨hsouth.symm, hwest.symm, hnorth.symm, heast.symm⟩

/-- Equality of regions is symmetric. Whether a merge succeeds may therefore be asked from either
side. -/
theorem Region.Equal.symm {a b : Region} (h : a.Equal b) : b.Equal a := by
  obtain ⟨hname, hbox, houtline, hencoding⟩ := h
  exact ⟨hname.symm, hbox.symm, houtline.symm, hencoding.symm⟩

theorem Scope.Equal.symm {s t : Scope} (h : s.Equal t) : t.Equal s := by
  cases s with
  | named m =>
      cases t with
      | named n => exact Eq.symm h
      | inline region => cases h
  | inline region =>
      cases t with
      | named n => cases h
      | inline other => exact Region.Equal.symm h

theorem Selection.Equal.symm {s t : Selection} (h : s.Equal t) : t.Equal s := by
  obtain ⟨hname, hkind, hscope, htags⟩ := h
  exact ⟨hname.symm, hkind.symm, hscope.symm, htags.symm⟩

/-! ### Transitivity -/

/-- Equality of numbers is transitive. It is not reflexive, so it is an equivalence only among what
is a number. -/
theorem Binary64.Equal.trans {x y z : Binary64} (hxy : x.Equal y) (hyz : y.Equal z) : x.Equal z :=
  ⟨hxy.1, hyz.2.1, hxy.2.2.trans hyz.2.2⟩

theorem Point.Equal.trans {p q r : Point} (hpq : p.Equal q) (hqr : q.Equal r) : p.Equal r :=
  ⟨Binary64.Equal.trans hpq.1 hqr.1, Binary64.Equal.trans hpq.2 hqr.2⟩

theorem Point.AllEqual.trans {ps qs rs : List Point} (hpq : Point.AllEqual ps qs)
    (hqr : Point.AllEqual qs rs) : Point.AllEqual ps rs := by
  induction ps generalizing qs rs with
  | nil =>
      cases qs with
      | nil => exact hqr
      | cons q qs => cases hpq
  | cons p ps ih =>
      cases qs with
      | nil => cases hpq
      | cons q qs =>
          cases rs with
          | nil => cases hqr
          | cons r rs => exact ⟨hpq.1.trans hqr.1, ih hpq.2 hqr.2⟩

theorem Bbox.Equal.trans {a b c : Bbox} (hab : a.Equal b) (hbc : b.Equal c) : a.Equal c := by
  obtain ⟨hsouth, hwest, hnorth, heast⟩ := hab
  obtain ⟨hsouth', hwest', hnorth', heast'⟩ := hbc
  exact ⟨hsouth.trans hsouth', hwest.trans hwest', hnorth.trans hnorth', heast.trans heast'⟩

/-- Equality of regions is transitive. So regions that are equal to a third one are equal to each
other, which is how one copy can stand for several. -/
theorem Region.Equal.trans {a b c : Region} (hab : a.Equal b) (hbc : b.Equal c) : a.Equal c := by
  obtain ⟨hname, hbox, houtline, hencoding⟩ := hab
  obtain ⟨hname', hbox', houtline', hencoding'⟩ := hbc
  exact ⟨hname.trans hname', hbox.trans hbox', houtline.trans houtline',
    hencoding.trans hencoding'⟩

/-- A scope that is a set is equal to itself alone, and inline regions are compared as regions. -/
theorem Scope.Equal.trans {s t u : Scope} (hst : s.Equal t) (htu : t.Equal u) : s.Equal u := by
  cases s with
  | named l =>
      cases t with
      | named m =>
          have hnames : l = m := hst
          exact hnames ▸ htu
      | inline region => cases hst
  | inline region =>
      cases t with
      | named m => cases hst
      | inline other =>
          cases u with
          | named n => cases htu
          | inline third => exact Region.Equal.trans hst htu

theorem Selection.Equal.trans {s t u : Selection} (hst : s.Equal t) (htu : t.Equal u) :
    s.Equal u := by
  obtain ⟨hname, hkind, hscope, htags⟩ := hst
  obtain ⟨hname', hkind', hscope', htags'⟩ := htu
  exact ⟨hname.trans hname', hkind.trans hkind', hscope.trans hscope', htags.trans htags'⟩

end Overpass
