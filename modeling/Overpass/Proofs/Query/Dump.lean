import Overpass.Proofs.Json.Pretty
import Overpass.Proofs.Program.Names
import Overpass.Proofs.Query.Expression
import Overpass.Proofs.Region.Equal
import Overpass.Query.Dump

/-!
# Dumps lose nothing

Two queries of finite coordinates that are dumped alike are the same, whatever the texts in their
tags are. A dump shows every part of a query: a tag without a value has null in its place, scopes
are marked by their sort, and an operator that has a parameter is an object and otherwise a word.
The value that is dumped is determined by its text as far as its numbers are finite, and numbers
occur in regions only.

## Main Definitions

* `Definition.AllFinite`: whether the coordinates that a definition holds are finite

## Main Statements

* `Query.dump_injective`: different queries have different dumps
* `Query.allFinite_dump`: the numbers in a dump are the coordinates of the query
* `Query.eq_of_dumpText_eq`: queries of finite coordinates with the same text are the same
-/

namespace Overpass

open Json

/-! ### Different queries have different dumps -/

/-- The long names of kinds, as dumps show them, tell all kinds apart. The names of encodings and of
directions do so too. -/
theorem ElementKind.longName_injective : Function.Injective longName := by
  intro k l h
  cases k <;> cases l <;> simp [longName] at h ⊢

theorem Encoding.keyword_injective : Function.Injective keyword := by
  intro k l h
  cases k <;> cases l <;> simp [keyword] at h ⊢

theorem Direction.name_injective : Function.Injective name := by
  intro k l h
  cases k <;> cases l <;> simp [name] at h ⊢

/-- What is dumped as null if it is absent is determined by its dump, as long as nothing that is
present is dumped as null. -/
theorem elim_null_injective {α : Type} {f : α → Json} (hf : Function.Injective f)
    (hnull : ∀ a, f a ≠ .null) : Function.Injective fun o : Option α => o.elim .null f := by
  intro o p h
  cases o with
  | none =>
      cases p with
      | none => rfl
      | some b => exact absurd h.symm (hnull b)
  | some a =>
      cases p with
      | none => exact absurd h (hnull a)
      | some b => rw [hf h]

/-- Names are dumped as their texts. From here on each record is told by its dump because each of
its fields is. -/
theorem SetName.dump_injective : Function.Injective dump := by
  rintro ⟨m⟩ ⟨n⟩ h
  simpa [dump] using h

/-- Boxes are told apart by their four sides, number by number, and so also by the signs of
zeros. -/
theorem Bbox.dump_injective : Function.Injective dump := by
  rintro ⟨asouth, awest, anorth, aeast⟩ ⟨bsouth, bwest, bnorth, beast⟩ h
  simpa [dump] using h

theorem Point.dump_injective : Function.Injective dump := by
  rintro ⟨alat, alon⟩ ⟨blat, blon⟩ h
  simpa [dump] using h

/-- A region is dumped with both of its forms, the name and the encoding, so that nothing about it
is lost. -/
theorem Region.dump_injective : Function.Injective dump := by
  rintro ⟨aname, abox, aoutline, aencoding⟩ ⟨bname, bbox, boutline, bencoding⟩ h
  simpa [dump, SetName.dump_injective.eq_iff, Bbox.dump_injective.eq_iff,
    List.map_inj_right Point.dump_injective, Encoding.keyword_injective.eq_iff] using h

theorem Area.dump_injective : Function.Injective dump := by
  rintro ⟨akind, aregion⟩ ⟨bkind, bregion⟩ h
  simpa [dump, ElementKind.longName_injective.eq_iff, Region.dump_injective.eq_iff] using h

/-- A set and an inline region are told apart by the word that they are dumped under, and then by
what they are. -/
theorem Scope.dump_injective : Function.Injective dump := by
  intro s t h
  cases s <;> cases t <;>
    simp [dump, SetName.dump_injective.eq_iff, Region.dump_injective.eq_iff] at h ⊢ <;> exact h

theorem Tag.dump_injective : Function.Injective dump := by
  rintro ⟨key, value⟩ ⟨key', value'⟩ h
  simp only [dump, Json.object.injEq, List.cons.injEq, Prod.mk.injEq, true_and, and_true,
    Json.string.injEq] at h
  obtain ⟨hkey, hvalue⟩ := h
  have hstring : Function.Injective Json.string := fun _ _ => Json.string.inj
  rw [hkey, elim_null_injective hstring (fun _ hnull => nomatch hnull) hvalue]

/-- A selection is told by its name, kind, scope and tags, where the order of the tags counts. -/
theorem Selection.dump_injective : Function.Injective dump := by
  rintro ⟨aname, akind, ascope, ⟨atags⟩⟩ ⟨bname, bkind, bscope, ⟨btags⟩⟩ h
  simpa [dump, SetName.dump_injective.eq_iff, ElementKind.longName_injective.eq_iff,
    Scope.dump_injective.eq_iff, List.map_inj_right Tag.dump_injective] using h

/-- What is dumped of a formula determines it: the operator tells a recursion from a combination. -/
theorem Formula.eq_of_dump_eq {f g : Formula} (hoperator : f.dumpOperator = g.dumpOperator)
    (hleft : f.left = g.left) (hright : f.right? = g.right?) : f = g := by
  cases f with
  | binary operator left right =>
      cases g with
      | binary operator' left' right' =>
          obtain rfl : left = left' := hleft
          obtain rfl : right = right' := Option.some_inj.mp hright
          cases operator <;> cases operator' <;>
            simp [dumpOperator, ElementKind.longName_injective.eq_iff] at hoperator ⊢
          exact hoperator
      | recurse direction source => cases hright
  | recurse direction source =>
      cases g with
      | binary operator left right => cases hright
      | recurse direction' source' =>
          obtain rfl : source = source' := hleft
          simpa [dumpOperator, Direction.name_injective.eq_iff] using hoperator

theorem Operation.dump_injective : Function.Injective dump := by
  rintro ⟨name, formula⟩ ⟨name', formula'⟩ h
  simp only [dump, Json.object.injEq, List.cons.injEq, Prod.mk.injEq, true_and, and_true,
    SetName.dump_injective.eq_iff] at h
  obtain ⟨hname, hoperator, hleft, hright⟩ := h
  have hright' := elim_null_injective SetName.dump_injective (fun _ hnull => nomatch hnull) hright
  rw [hname, Formula.eq_of_dump_eq hoperator hleft hright']

/-- A list of definitions is dumped as an object whose members are named by them. -/
theorem Program.dump_injective : Function.Injective dump := by
  rintro ⟨areas, selections, operations⟩ ⟨areas', selections', operations'⟩ h
  have hinjective : ∀ {α : Type} (name : α → String) {dump : α → Json},
      Function.Injective dump → Function.Injective fun a => (name a, dump a) :=
    fun name dump hdump a b hab => hdump (Prod.mk.inj hab).2
  simpa [dump, List.map_inj_right (hinjective _ Area.dump_injective),
    List.map_inj_right (hinjective _ Selection.dump_injective),
    List.map_inj_right (hinjective _ Operation.dump_injective)] using h

/-- **Different queries have different dumps.** The root is dumped beside the program, and the three
lists of the program are dumped in their order. -/
theorem Query.dump_injective : Function.Injective dump := by
  rintro ⟨root, program⟩ ⟨root', program'⟩ h
  simpa [dump, SetName.dump_injective.eq_iff, Program.dump_injective.eq_iff] using h

/-! ### The numbers in a dump -/

/-- Whether all coordinates that a region holds are finite. -/
def Region.AllFinite (region : Region) : Prop := ∀ x ∈ region.coordinates, x.isFinite

/-- Whether all coordinates that a definition holds are finite. -/
def Definition.AllFinite (d : Definition) : Prop := ∀ region ∈ d.regions, region.AllFinite

instance (d : Definition) : Decidable d.AllFinite :=
  inferInstanceAs (Decidable (∀ region ∈ d.regions, ∀ x ∈ region.coordinates, x.isFinite))

/-- The numbers in the dump of a region are its coordinates, so they are finite wherever these
are. -/
theorem Region.allFinite_dump {region : Region} (h : region.AllFinite) :
    region.dump.AllFinite := by
  obtain ⟨hbox, houtline⟩ := List.forall_mem_append.mp h
  have hpoints : ∀ p ∈ region.outline, p.lat.isFinite ∧ p.lon.isFinite := by
    intro p hp
    have hp' : ∀ x ∈ p.coordinates, x.isFinite := fun x hx =>
      houtline x (List.mem_flatMap.mpr ⟨p, hp, hx⟩)
    simpa [Point.coordinates] using hp'
  simp [Bbox.sides] at hbox
  simpa [dump, SetName.dump, Bbox.dump, Point.dump, hbox] using hpoints

theorem Selection.allFinite_dump {s : Selection} (h : (Definition.selection s).AllFinite) :
    s.dump.AllFinite := by
  have hscope : s.scope.dump.AllFinite := by
    cases hs : s.scope with
    | named n => simp [Scope.dump, SetName.dump]
    | inline region =>
        have hregion : region.AllFinite := by
          refine h region ?_
          rw [Definition.regions, hs]
          exact List.mem_singleton.mpr rfl
        simpa [Scope.dump] using Region.allFinite_dump hregion
  have htags : ∀ tag ∈ s.tags.tags, tag.dump.AllFinite := by
    rintro ⟨key, value⟩ -
    cases value <;> simp [Tag.dump]
  simpa [dump, SetName.dump, hscope] using htags

theorem Operation.allFinite_dump (o : Operation) : o.dump.AllFinite := by
  have hoperator : o.formula.dumpOperator.AllFinite := by
    rcases o.formula with ⟨_ | _ | _, _, _⟩ | _ <;> simp [Formula.dumpOperator]
  have hright : (o.formula.right?.elim .null SetName.dump).AllFinite := by
    cases o.formula.right? <;> simp [SetName.dump]
  simpa [dump, SetName.dump, hoperator] using hright

/-- **The numbers in a dump are the coordinates of the query.** No other numbers occur in it, and so
the text of a dump can be read back if all coordinates are finite. -/
theorem Query.allFinite_dump {q : Query} (h : ∀ d ∈ q.program.definitions, d.AllFinite) :
    q.dump.AllFinite := by
  have hareas : ∀ a ∈ q.program.areas, a.dump.AllFinite := by
    intro a ha
    have hregion := h (.area a) (Program.area_mem_definitions.mpr ha) a.region
      (List.mem_singleton.mpr rfl)
    simpa [Area.dump] using Region.allFinite_dump hregion
  have hselections : ∀ s ∈ q.program.selections, s.dump.AllFinite := fun s hs =>
    Selection.allFinite_dump (h (.selection s) (Program.selection_mem_definitions.mpr hs))
  simpa [dump, Program.dump, SetName.dump, Operation.allFinite_dump] using
    And.intro hareas hselections

/-- **A dump loses nothing.** Two queries of finite coordinates that are dumped as the same text are
the same query: their roots and all their definitions are the same, in the same order. -/
theorem Query.eq_of_dumpText_eq {q r : Query} (hq : ∀ d ∈ q.program.definitions, d.AllFinite)
    (hr : ∀ d ∈ r.program.definitions, d.AllFinite) (h : q.dumpText = r.dumpText) : q = r :=
  dump_injective (text_injective (allFinite_dump hq) (allFinite_dump hr) h)

/-- The union of the nodes and the ways of the park is told from its dump. -/
theorem Query.eq_of_dumpText_eq_park :
    ∃ q, combineAs .union Park.nodes Park.ways "both" = .ok q ∧ q = Park.both :=
  ⟨_, rfl, eq_of_dumpText_eq (by decide) (by decide) rfl⟩

end Overpass
