import Overpass.Proofs.Except
import Overpass.Proofs.Program.WellFormed
import Overpass.Proofs.Query.Expression

/-!
# The normal form of built queries

Calls succeed for many reasons and in many forms, but each success leaves the same mark: one new
definition, appended under a free name to the programs of the operands joined together. `Formed` is
this normal form; what is proved of reachable queries is proved by induction on it.

That an insertion may find an equal definition in place, and then add nothing, is what makes the
normal form a theorem. It never happens to the definition of a new query: that definition refers to
the roots of its operands, and nothing in the program of an operand refers to its root.

## Main Definitions

* `Formed`: the normal form of a built query

## Main Statements

* `Built.formed`: built queries are in normal form
* `Formed.wellFormed`: the program of a built query is well-formed
* `Formed.root_notMem_references`: nothing in a built query refers to its root
* `Program.Reachable.wellFormed`: reachable programs are well-formed
* `Program.Reachable.invariant`: what is kept by every way to extend a program holds of all of them
-/

namespace Overpass

open Program

/-- The query of a definition that is appended to a program. Its root is the new definition. -/
def Program.extend (p : Program) (d : Definition) : Query := ⟨d.name, p.append d⟩

/-- The root of an extension is bound by the sort of the definition that was appended. -/
theorem Program.root_extend_mem (p : Program) (d : Definition) :
    (p.extend d).root ∈ (p.extend d).program.namesOf d.binding :=
  mem_namesOf_append.mpr (Or.inr ⟨rfl, rfl⟩)

/-- A definition that a well-formed program can grow by: its name is free and its references are
bound. -/
structure Program.Extensible (p : Program) (d : Definition) : Prop where
  wellFormed : p.WellFormed
  free : d.name ∉ p.names
  supports : p.Supports d

/-- A program that is extended by what it supports stays well-formed. This is the only way in which
built queries come by new definitions. -/
theorem Program.Extensible.wellFormed_extend {p : Program} {d : Definition} (h : p.Extensible d) :
    (p.extend d).program.WellFormed :=
  h.wellFormed.append h.free h.supports

/-- Nothing refers to the root of an extension: it was free when everything before it was defined,
and what it is defined by was bound then. -/
theorem Program.Extensible.root_notMem_references {p : Program} {d : Definition}
    (h : p.Extensible d) {x : Signature} (hx : x ∈ (p.extend d).program.signatures) :
    (p.extend d).root ∉ x.references := by
  intro hroot
  rcases mem_signatures_append.mp hx with hx | rfl
  · exact h.free (h.wellFormed.closed hx hroot)
  · exact h.free (h.supports.mem_names hroot)

/-- The normal form of a built query: the definition of its root is appended, under a free name, to
the programs of its operands. -/
inductive Formed : Expression → Query → Prop
  | shared {kind : ElementKind} {tags : TagFilter} {region : Region} {name : SetName}
      (hfree : name ≠ region.name) :
      Formed (.inRegion kind tags region)
        ((Program.empty.append (.area ⟨kind, region⟩)).extend
          (.selection ⟨name, kind, .named region.name, tags⟩))
  | inline {kind : ElementKind} {tags : TagFilter} {region : Region} {name : SetName} :
      Formed (.inRegion kind tags region)
        (Program.empty.extend (.selection ⟨name, kind, .inline region, tags⟩))
  | within {kind : ElementKind} {tags : TagFilter} {e : Expression} {source : Query}
      {name : SetName} (hsource : Formed e source)
      (hroot : source.root ∈ source.program.namesOf .selection)
      (hfree : name ∉ source.program.names) :
      Formed (.within kind tags e)
        (source.program.extend (.selection ⟨name, kind, .named source.root, tags⟩))
  | binary {operator : BinaryOperator} {e f : Expression} {a b : Query} {name : SetName}
      (ha : Formed e a) (hb : Formed f b) (hkinds : Query.checkOperands operator a b = .ok ())
      (hcompatible : a.program.Compatible b.program)
      (hfree : name ∉ (a.program.join b.program).names) :
      Formed (.binary operator e f)
        ((a.program.join b.program).extend (.operation ⟨name, .binary operator a.root b.root⟩))
  | recurse {direction : Direction} {e : Expression} {source : Query} {name : SetName}
      (hsource : Formed e source) (hfree : name ∉ source.program.names) :
      Formed (.recurse direction e)
        (source.program.extend (.operation ⟨name, .recurse direction source.root⟩))

namespace Formed

variable {e f : Expression} {q a b : Query} {d : Definition}

/-- The root of a built query is a selection or an operation of its program, since one of these is
what a call appends last. -/
theorem root_mem (h : Formed e q) :
    q.root ∈ q.program.namesOf .selection ∨ q.root ∈ q.program.namesOf .operation := by
  cases h with
  | shared | inline | within => exact Or.inl (root_extend_mem _ (.selection _))
  | binary | recurse => exact Or.inr (root_extend_mem _ (.operation _))

/-- A built query binds its root, whatever its form. So there is a line that binds what the footer
asks for. -/
theorem root_mem_names (h : Formed e q) : q.root ∈ q.program.names :=
  h.root_mem.elim mem_names_of_mem_namesOf mem_names_of_mem_namesOf

/-- A root that is no operation is a selection. It is never an area, since every call that brings in
an area goes on to select from it. -/
theorem root_mem_selection (h : Formed e q) (hwell : q.program.WellFormed)
    (hbinding : q.program.binding? q.root ≠ some .operation) :
    q.root ∈ q.program.namesOf .selection :=
  h.root_mem.resolve_right fun hoperation =>
    hbinding ((binding?_eq_some_iff hwell.nodup).mpr hoperation)

/-! ### Growth -/

/-- A selection can follow the area that it brings along, unless it is to have the name of that
area. -/
theorem extensible_shared {kind : ElementKind} {tags : TagFilter} {region : Region}
    {name : SetName} (hfree : name ≠ region.name) :
    (Program.empty.append (.area ⟨kind, region⟩)).Extensible
      (.selection ⟨name, kind, .named region.name, tags⟩) where
  wellFormed := wellFormed_empty.append (d := .area ⟨kind, region⟩) List.not_mem_nil trivial
  free := fun h => hfree (List.mem_singleton.mp h)
  supports := fun _ hn => Or.inl hn

/-- A selection from an inline region needs nothing before it, and is the first definition of its
program. -/
theorem extensible_inline {kind : ElementKind} {tags : TagFilter} {region : Region}
    {name : SetName} :
    Program.empty.Extensible (.selection ⟨name, kind, .inline region, tags⟩) where
  wellFormed := wellFormed_empty
  free := List.not_mem_nil
  supports := fun _ hn => absurd hn List.not_mem_nil

/-- A selection can follow the query that it looks into, if the root of that query is a selection
and its own name is free. -/
theorem extensible_within (hw : q.program.WellFormed) {kind : ElementKind} {tags : TagFilter}
    {name : SetName} (hroot : q.root ∈ q.program.namesOf .selection)
    (hfree : name ∉ q.program.names) :
    q.program.Extensible (.selection ⟨name, kind, .named q.root, tags⟩) where
  wellFormed := hw
  free := hfree
  supports := fun _ hn => Or.inr (List.mem_singleton.mp hn ▸ hroot)

/-- A recursion can follow any built query under a free name: whether its root is a selection or an
operation, an operation may refer to it. -/
theorem extensible_recurse (h : Formed e q) (hw : q.program.WellFormed) {direction : Direction}
    {name : SetName} (hfree : name ∉ q.program.names) :
    q.program.Extensible (.operation ⟨name, .recurse direction q.root⟩) where
  wellFormed := hw
  free := hfree
  supports := fun _ hn => List.mem_singleton.mp hn ▸ h.root_mem

/-- The operands of a binary operation support it in their joined programs. -/
theorem extensible_binary (ha : Formed e a) (hb : Formed f b) (hwa : a.program.WellFormed)
    (hwb : b.program.WellFormed) (hcompatible : a.program.Compatible b.program)
    {operator : BinaryOperator} {name : SetName}
    (hfree : name ∉ (a.program.join b.program).names) :
    (a.program.join b.program).Extensible
      (.operation ⟨name, .binary operator a.root b.root⟩) where
  wellFormed := hwa.join hwb hcompatible
  free := hfree
  supports := by
    intro n hn
    simp only [hcompatible.mem_namesOf_join]
    rcases List.mem_pair.mp hn with rfl | rfl
    · exact ha.root_mem.imp Or.inl Or.inl
    · exact hb.root_mem.imp Or.inr Or.inr

/-- A built query extends a well-formed program by the definition of its root. The five forms are
the same in this, which is why many facts need no induction. -/
theorem exists_extensible (h : Formed e q) :
    ∃ (p : Program) (d : Definition), p.Extensible d ∧ q = p.extend d := by
  induction h with
  | shared hfree => exact ⟨_, _, extensible_shared hfree, rfl⟩
  | inline => exact ⟨_, _, extensible_inline, rfl⟩
  | within hsource hroot hfree ih =>
      obtain ⟨p, d, hpd, rfl⟩ := ih
      exact ⟨_, _, extensible_within hpd.wellFormed_extend hroot hfree, rfl⟩
  | binary ha hb hkinds hcompatible hfree iha ihb =>
      obtain ⟨p, d, hpd, rfl⟩ := iha
      obtain ⟨p', d', hpd', rfl⟩ := ihb
      exact ⟨_, _, extensible_binary ha hb hpd.wellFormed_extend hpd'.wellFormed_extend
        hcompatible hfree, rfl⟩
  | recurse hsource hfree ih =>
      obtain ⟨p, d, hpd, rfl⟩ := ih
      exact ⟨_, _, extensible_recurse hsource hpd.wellFormed_extend hfree, rfl⟩

/-- **The program of a built query is well-formed.** Each form extends a well-formed program, a join
of two being well-formed if they are compatible. -/
theorem wellFormed (h : Formed e q) : q.program.WellFormed := by
  obtain ⟨p, d, hpd, rfl⟩ := h.exists_extensible
  exact hpd.wellFormed_extend

/-- Nothing in the program of a built query refers to its root: the root was bound last, under a
name that was free. -/
theorem root_notMem_references (h : Formed e q) {x : Signature}
    (hx : x ∈ q.program.signatures) : q.root ∉ x.references := by
  obtain ⟨p, d, hpd, rfl⟩ := h.exists_extensible
  exact hpd.root_notMem_references hx

/-! ### New definitions -/

/-- A definition that refers to the root of a built query is new to its program. An equal definition
would have been there before the root was. -/
theorem not_absorbs (h : Formed e q) (hroot : q.root ∈ d.references) : ¬ q.program.Absorbs d :=
  fun habsorbs => h.root_notMem_references habsorbs.signature_mem hroot

/-- A definition that refers to the roots of two built queries is new to their joined programs: what
is there stands in the program of one of them, and does not refer to the root of that one. -/
theorem not_absorbs_join (ha : Formed e a) (hb : Formed f b)
    (hcompatible : a.program.Compatible b.program) (hleft : a.root ∈ d.references)
    (hright : b.root ∈ d.references) : ¬ (a.program.join b.program).Absorbs d := by
  intro habsorbs
  rcases hcompatible.mem_signatures_join.mp habsorbs.signature_mem with hx | hx
  · exact ha.root_notMem_references hx hleft
  · exact hb.root_notMem_references hx hright

/-- A combination is never absorbed by the join of its operands, since it refers to the roots of
both. -/
theorem not_absorbs_binary (ha : Formed e a) (hb : Formed f b)
    (hcompatible : a.program.Compatible b.program) (operator : BinaryOperator) (name : SetName) :
    ¬ (a.program.join b.program).Absorbs
      (.operation ⟨name, .binary operator a.root b.root⟩) :=
  ha.not_absorbs_join hb hcompatible List.mem_cons_self
    (List.mem_cons_of_mem _ List.mem_cons_self)

/-- A recursion is never absorbed by the program that it follows, since it refers to the root, which
nothing there does. -/
theorem not_absorbs_recurse (h : Formed e q) (direction : Direction) (name : SetName) :
    ¬ q.program.Absorbs (.operation ⟨name, .recurse direction q.root⟩) :=
  h.not_absorbs List.mem_cons_self

theorem not_absorbs_within (h : Formed e q) (kind : ElementKind) (tags : TagFilter)
    (name : SetName) : ¬ q.program.Absorbs (.selection ⟨name, kind, .named q.root, tags⟩) :=
  h.not_absorbs List.mem_cons_self

theorem not_absorbs_empty : ¬ Program.empty.Absorbs d :=
  fun habsorbs => absurd habsorbs.signature_mem List.not_mem_nil

/-- A selection is new to a program that consists of an area. So a selection is always appended too,
wherever it looks, and no call finds its result in place. -/
theorem not_absorbs_shared {kind : ElementKind} {region : Region} {s : Selection} :
    ¬ (Place.shared kind region).1.Absorbs (.selection s) := by
  intro habsorbs
  have hsignature := List.mem_singleton.mp habsorbs.signature_mem
  cases congrArg Signature.binding hsignature

end Formed

/-! ### Reduction to the normal form -/

/-- A shape that is resolved gets an area of its own, over the region that it was resolved to. The
three ways to describe a shape share this step. -/
theorem Place.exists_shared_of_map_eq_ok {result : Except RegionError Region} {kind : ElementKind}
    {resolved : Program × Scope}
    (h : (Place.shared kind <$> result).mapError QueryError.region = .ok resolved) :
    ∃ region, result.toOption = some region ∧ resolved = Place.shared kind region := by
  cases result with
  | error cause => cases h
  | ok region => exact ⟨region, rfl, (Except.ok.inj h).symm⟩

/-- A place resolves to the program of a query that is not rooted at an operation, or to a region
with or without an area of its own. -/
theorem Place.eq_of_resolve_eq_ok {place : Place} {resolver : Resolver} {kind : ElementKind}
    {resolved : Program × Scope} (h : place.resolve resolver kind = .ok resolved) :
    (∃ source, place = .query source ∧ source.program.binding? source.root ≠ some .operation ∧
      resolved = (source.program, .named source.root)) ∨
    ∃ region, place.region? resolver = some region ∧
      (resolved = Place.shared kind region ∨ resolved = (.empty, .inline region)) := by
  cases place with
  | query source =>
      rw [Place.resolve] at h
      split_ifs at h with hbinding
      exact Or.inl ⟨source, rfl, hbinding, (Except.ok.inj h).symm⟩
  | polygon p =>
      obtain ⟨region, hregion, heq⟩ := Place.exists_shared_of_map_eq_ok h
      exact Or.inr ⟨region, hregion, Or.inl heq⟩
  | bbox b =>
      obtain ⟨region, hregion, heq⟩ := Place.exists_shared_of_map_eq_ok h
      exact Or.inr ⟨region, hregion, Or.inl heq⟩
  | outline points =>
      obtain ⟨region, hregion, heq⟩ := Place.exists_shared_of_map_eq_ok h
      exact Or.inr ⟨region, hregion, Or.inl heq⟩
  | region r => exact Or.inr ⟨r, rfl, Or.inl (Except.ok.inj h).symm⟩
  | inline r => exact Or.inr ⟨r, rfl, Or.inr (Except.ok.inj h).symm⟩

/-- A draft that is built has tags and a place, and what it gives is finished under some name. -/
theorem Draft.finish_of_build {draft : Draft} {resolver : Resolver} {place : Place}
    {tags : TagFilter} {q : Query} {supply rest : NameSupply} (htags : draft.tags = .ok tags)
    (hplace : draft.place = some place)
    (h : (draft.build resolver).runOn supply = (.ok q, rest)) :
    ∃ name, Draft.finish resolver draft.kind tags place name = .ok q := by
  -- Where the name comes from, and what is left of the supply, does not matter from here on.
  obtain ⟨tags', middle, hlift, h⟩ := Fresh.runOn_bind_eq_ok_iff.mp h
  rw [Fresh.runOn_lift, htags] at hlift
  cases hlift
  simp only [hplace] at h
  obtain ⟨name, middle, -, h⟩ := Fresh.runOn_bind_eq_ok_iff.mp h
  rw [Fresh.runOn_lift] at h
  exact ⟨name, congrArg Prod.fst h⟩

namespace Formed

variable {e f : Expression} {q a b : Query} {name : SetName} {supply rest : NameSupply}

/-- A combination of compatible operands of the right kinds is refused if its name is bound on
either side; otherwise it appends an operation to the joined programs of its operands. -/
theorem combine_eq {operator : BinaryOperator} (ha : Formed e a) (hb : Formed f b)
    (hkinds : Query.checkOperands operator a b = .ok ())
    (hcompatible : a.program.Compatible b.program) (name : SetName) :
    Query.combine operator a b name =
      if name ∈ (a.program.join b.program).names then .error (.nameConflict name)
      else .ok ((a.program.join b.program).extend
        (.operation ⟨name, .binary operator a.root b.root⟩)) := by
  have hmerge : a.program.merge b.program = .ok (a.program.join b.program) :=
    (merge_eq_ok_iff _ hb.wellFormed.nodup).mpr ⟨hcompatible, rfl⟩
  have hinsert := insert_eq_of_not_absorbs (ha.not_absorbs_binary hb hcompatible operator name)
  rw [show (Definition.operation ⟨name, .binary operator a.root b.root⟩).name = name from rfl]
    at hinsert
  rw [Query.combine, hkinds, hmerge]
  show (_ >>= fun program => Except.ok (⟨name, program⟩ : Query)) = _
  rw [hinsert]
  split_ifs <;> rfl

/-- A combination that succeeds has compatible operands and a free name, and appends one operation
to their join. This is read off the checks that a combination makes, in their order. -/
theorem eq_extend_of_combine {operator : BinaryOperator} (ha : Formed e a) (hb : Formed f b)
    (h : Query.combine operator a b name = .ok q) :
    Query.checkOperands operator a b = .ok () ∧ a.program.Compatible b.program ∧
      name ∉ (a.program.join b.program).names ∧
      q = (a.program.join b.program).extend
        (.operation ⟨name, .binary operator a.root b.root⟩) := by
  obtain ⟨⟨⟩, hkinds, hmerged⟩ := bind_eq_ok_iff.mp h
  obtain ⟨merged, hmerge, -⟩ := bind_eq_ok_iff.mp hmerged
  have hcompatible := ((merge_eq_ok_iff _ hb.wellFormed.nodup).mp hmerge).1
  rw [ha.combine_eq hb hkinds hcompatible] at h
  split_ifs at h with hbound
  exact ⟨hkinds, hcompatible, hbound, (Except.ok.inj h).symm⟩

theorem combine {operator : BinaryOperator} (ha : Formed e a) (hb : Formed f b)
    (h : Query.combine operator a b name = .ok q) : Formed (.binary operator e f) q := by
  obtain ⟨hkinds, hcompatible, hfree, rfl⟩ := ha.eq_extend_of_combine hb h
  exact .binary ha hb hkinds hcompatible hfree

/-- A recursion is refused if its name is bound; otherwise it appends an operation. There is no
other reason for a refusal. -/
theorem follow_eq (ha : Formed e a) (direction : Direction) (name : SetName) :
    Query.follow direction a name =
      if name ∈ a.program.names then .error (.nameConflict name)
      else .ok (a.program.extend (.operation ⟨name, .recurse direction a.root⟩)) := by
  have hinsert := insert_eq_of_not_absorbs (ha.not_absorbs_recurse direction name)
  rw [show (Definition.operation ⟨name, .recurse direction a.root⟩).name = name from rfl]
    at hinsert
  rw [Query.follow, hinsert]
  split_ifs <;> rfl

/-- A recursion that succeeds has a free name, and appends one operation to the program that it
follows. -/
theorem eq_extend_of_follow {direction : Direction} (ha : Formed e a)
    (h : Query.follow direction a name = .ok q) :
    name ∉ a.program.names ∧
      q = a.program.extend (.operation ⟨name, .recurse direction a.root⟩) := by
  rw [ha.follow_eq] at h
  split_ifs at h with hbound
  exact ⟨hbound, (Except.ok.inj h).symm⟩

theorem follow {direction : Direction} (ha : Formed e a)
    (h : Query.follow direction a name = .ok q) : Formed (.recurse direction e) q := by
  obtain ⟨hfree, rfl⟩ := ha.eq_extend_of_follow h
  exact .recurse ha hfree

/-- The selection of a draft is new to the program that its place brings along. -/
theorem not_absorbs_resolve {place : Place} {resolver : Resolver} {kind : ElementKind}
    {program : Program} {scope : Scope}
    (hplace : ∀ source, place = .query source → ∃ e, Formed e source)
    (hresolve : place.resolve resolver kind = .ok (program, scope)) (tags : TagFilter)
    (name : SetName) : ¬ program.Absorbs (.selection ⟨name, kind, scope, tags⟩) := by
  rcases Place.eq_of_resolve_eq_ok hresolve with ⟨source, hsource, -, hresolved⟩ |
    ⟨region, -, hshared | hinline⟩
  · obtain ⟨e, he⟩ := hplace source hsource
    cases hresolved
    exact he.not_absorbs_within kind tags name
  · cases hshared
    exact not_absorbs_shared
  · cases hinline
    exact not_absorbs_empty

/-- A selection is refused if its name is bound by what its place brings along; otherwise it is
appended to that. -/
theorem finish_eq {place : Place} {resolver : Resolver} {kind : ElementKind} {program : Program}
    {scope : Scope} (hplace : ∀ source, place = .query source → ∃ e, Formed e source)
    (hresolve : place.resolve resolver kind = .ok (program, scope)) (tags : TagFilter)
    (name : SetName) :
    Draft.finish resolver kind tags place name =
      if name ∈ program.names then .error (.nameConflict name)
      else .ok (program.extend (.selection ⟨name, kind, scope, tags⟩)) := by
  have hinsert := insert_eq_of_not_absorbs (not_absorbs_resolve hplace hresolve tags name)
  rw [show (Definition.selection ⟨name, kind, scope, tags⟩).name = name from rfl] at hinsert
  rw [Draft.finish, hresolve]
  show (_ >>= fun extended => Except.ok (⟨name, extended⟩ : Query)) = _
  rw [hinsert]
  split_ifs <;> rfl

/-- A selection from a place that comes to a region is a built query, whether the region gets an
area of its own or is printed inline. -/
theorem finish_inRegion {resolver : Resolver} {kind : ElementKind} {tags : TagFilter}
    {place : Place} {region : Region} (hplace : place.region? resolver = some region)
    (h : Draft.finish resolver kind tags place name = .ok q) :
    Formed (.inRegion kind tags region) q := by
  have hsource : ∀ source, place = .query source → ∃ e, Formed e source := by
    rintro source rfl
    cases hplace
  obtain ⟨⟨program, scope⟩, hresolve, -⟩ := bind_eq_ok_iff.mp h
  rw [finish_eq hsource hresolve] at h
  split_ifs at h with hbound
  cases h
  rcases Place.eq_of_resolve_eq_ok hresolve with ⟨source, rfl, -⟩ | ⟨other, hother, hresolved⟩
  · cases hplace
  · rw [hplace] at hother
    cases hother
    rcases hresolved with hshared | hinline
    · cases hshared
      exact .shared fun heq => hbound (List.mem_singleton.mpr heq)
    · cases hinline
      exact .inline

/-- A selection from the set of a query has a scope that is no operation, and a free name. -/
theorem eq_extend_of_finish {resolver : Resolver} {kind : ElementKind} {tags : TagFilter}
    (ha : Formed e a) (h : Draft.finish resolver kind tags (.query a) name = .ok q) :
    a.root ∈ a.program.namesOf .selection ∧ name ∉ a.program.names ∧
      q = a.program.extend (.selection ⟨name, kind, .named a.root, tags⟩) := by
  obtain ⟨⟨program, scope⟩, hresolve, -⟩ := bind_eq_ok_iff.mp h
  have hsource : ∀ source, Place.query a = .query source → ∃ e, Formed e source := by
    rintro source ⟨⟩
    exact ⟨e, ha⟩
  rw [finish_eq hsource hresolve] at h
  split_ifs at h with hbound
  rcases Place.eq_of_resolve_eq_ok hresolve with ⟨source, hplace, hbinding, hresolved⟩ |
    ⟨region, hregion, -⟩
  · cases hplace
    cases hresolved
    exact ⟨ha.root_mem_selection ha.wellFormed hbinding, hbound, (Except.ok.inj h).symm⟩
  · cases hregion

/-- A selection from a query is a built query. Places that are queries are refused if their root is
an operation, so the root is a selection here. -/
theorem finish_within {resolver : Resolver} {kind : ElementKind} {tags : TagFilter}
    (ha : Formed e a) (h : Draft.finish resolver kind tags (.query a) name = .ok q) :
    Formed (.within kind tags e) q := by
  obtain ⟨hroot, hfree, rfl⟩ := ha.eq_extend_of_finish h
  exact .within ha hroot hfree

theorem combineFresh {operator : BinaryOperator} (ha : Formed e a) (hb : Formed f b)
    (h : (Query.combineFresh operator a b).runOn supply = (.ok q, rest)) :
    Formed (.binary operator e f) q := by
  obtain ⟨name, middle, -, h⟩ := Fresh.runOn_bind_eq_ok_iff.mp h
  exact ha.combine hb (congrArg Prod.fst h)

theorem recurseFresh {direction : Direction} (ha : Formed e a)
    (h : (a.recurse direction).runOn supply = (.ok q, rest)) :
    Formed (.recurse direction e) q := by
  obtain ⟨name, middle, -, h⟩ := Fresh.runOn_bind_eq_ok_iff.mp h
  exact ha.follow (congrArg Prod.fst h)

/-- Combining with several queries from the left, one after the other, gives the query of the
expression that is combined in the same way. By induction on the queries that are still to come. -/
theorem foldCombine {operator : BinaryOperator} (others : List (Expression × Query))
    (hothers : ∀ other ∈ others, Formed other.1 other.2) (ha : Formed e a)
    (h : Fresh.runOn ((others.map Prod.snd).foldlM (Query.combineFresh operator) a) supply =
      (.ok q, rest)) :
    Formed (others.foldl (fun left other => .binary operator left other.1) e) q := by
  induction others generalizing e a supply with
  | nil =>
      cases h
      exact ha
  | cons other others ih =>
      obtain ⟨combined, middle, hcombined, h⟩ := Fresh.runOn_bind_eq_ok_iff.mp h
      have hother := hothers other List.mem_cons_self
      exact ih (fun x hx => hothers x (List.mem_cons_of_mem other hx))
        (ha.combineFresh hother hcombined) h

end Formed

/-- **Built queries are in normal form.** Whatever the calls, a successful one appends one
definition, the root's, to the joined programs of its operands. -/
theorem Built.formed {e : Expression} {q : Query} (h : Built e q) : Formed e q := by
  induction h with
  | inRegion htags hplace hregion hbuild =>
      obtain ⟨name, hfinish⟩ := Draft.finish_of_build htags hplace hbuild
      exact Formed.finish_inRegion hregion hfinish
  | within htags hplace _ hbuild ih =>
      obtain ⟨name, hfinish⟩ := Draft.finish_of_build htags hplace hbuild
      exact ih.finish_within hfinish
  | combineAs _ _ h iha ihb =>
      obtain ⟨name, -, h⟩ := bind_eq_ok_iff.mp h
      exact iha.combine ihb h
  | combineFresh _ _ h iha ihb => exact iha.combineFresh ihb h
  | recurseAs _ h ih =>
      obtain ⟨name, -, h⟩ := bind_eq_ok_iff.mp h
      exact ih.follow h
  | recurse _ h ih => exact ih.recurseFresh h
  | recurseMarker _ hmarker h ih =>
      obtain ⟨direction, middle, hlift, h⟩ := Fresh.runOn_bind_eq_ok_iff.mp h
      rw [Fresh.runOn_lift, hmarker] at hlift
      cases hlift
      exact ih.recurseFresh h
  | unionAll _ _ h ih ihothers => exact ih.foldCombine _ ihothers h
  | differenceAll _ _ h ih ihothers => exact ih.foldCombine _ ihothers h

/-- Whatever a caller can obtain is the query of some expression, in normal form. -/
theorem Query.Reachable.exists_formed {q : Query} (h : q.Reachable) : ∃ e, Formed e q :=
  h.imp fun _ => Built.formed

/-- The programs of all queries that a caller can obtain are well-formed, however they were
built. -/
theorem Query.Reachable.wellFormed {q : Query} (h : q.Reachable) : q.program.WellFormed := by
  obtain ⟨e, he⟩ := h.exists_formed
  exact he.wellFormed

/-- Reachable programs are well-formed, merged as they may be: also those that are no programs of
queries, which callers get by merging programs themselves. -/
theorem Program.Reachable.wellFormed {p : Program} (h : p.Reachable) : p.WellFormed := by
  induction h with
  | empty => exact wellFormed_empty
  | ofQuery hq => exact hq.wellFormed
  | merge _ _ hmerge ihp ihq =>
      obtain ⟨hcompatible, rfl⟩ := (merge_eq_ok_iff _ ihq.nodup).mp hmerge
      exact ihp.join ihq hcompatible

/-! ### Invariants -/

section Invariants

variable {motive : Program → Prop} (hempty : motive .empty)
  (hshared : ∀ kind tags region name, motive
    ((Program.empty.append (.area ⟨kind, region⟩)).append
      (.selection ⟨name, kind, .named region.name, tags⟩)))
  (hselection : ∀ {p : Program} {s : Selection}, motive p →
    (∀ n ∈ p.namesOf .area, s.scope ≠ .named n) → motive (p.append (.selection s)))
  (hoperation : ∀ {p : Program} (o : Operation), motive p → motive (p.append (.operation o)))
  (hjoin : ∀ {p q : Program}, motive p → motive q → p.WellFormed → q.WellFormed →
    p.Compatible q → motive (p.join q))

include hempty hshared hselection hoperation hjoin

/-- An area comes with a selection that looks into it; all other selections look elsewhere. What
holds to begin with and is kept by these two, by operations and by joins holds of all programs of
built queries. -/
theorem Formed.invariant {e : Expression} {q : Query} (h : Formed e q) : motive q.program := by
  induction h with
  | shared => exact hshared _ _ _ _
  | inline => exact hselection hempty fun _ hn => absurd hn List.not_mem_nil
  | within hsource hroot _ ih =>
      refine hselection ih ?_
      rintro n hn ⟨⟩
      cases (names_nodup_iff.mp hsource.wellFormed.nodup).2 _ _ _ hn hroot
  | binary ha hb _ hcompatible _ iha ihb =>
      exact hoperation _ (hjoin iha ihb ha.wellFormed hb.wellFormed hcompatible)
  | recurse _ _ ih => exact hoperation _ ih

/-- Merging is joining, so it also holds of all programs that a caller can obtain. This is the
induction over programs, made once for all invariants of them. -/
theorem Program.Reachable.invariant {p : Program} (h : p.Reachable) : motive p := by
  induction h with
  | empty => exact hempty
  | ofQuery hq =>
      obtain ⟨e, he⟩ := hq.exists_formed
      exact he.invariant hempty hshared hselection hoperation hjoin
  | merge hp hq hmerge ihp ihq =>
      obtain ⟨hcompatible, rfl⟩ := (merge_eq_ok_iff _ hq.wellFormed.nodup).mp hmerge
      exact hjoin ihp ihq hp.wellFormed hq.wellFormed hcompatible

end Invariants

end Overpass
