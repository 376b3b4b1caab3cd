import Mathlib.Data.List.Find
import Overpass.Proofs.Program.Names

/-!
# Merging in closed form

Merging inserts the definitions of the second program one by one and looks each of them up in what
has been merged so far. As long as the second program binds no name twice, its own definitions never
get in each other's way, and merging is a single test followed by a plain join of lists.

## Main Definitions

* `Program.Accepts`: whether a program has no definition of a name, or one that agrees
* `Program.Absorbs`: whether it has one that agrees, so that nothing is added
* `Program.put`: the outcome of an insertion that is accepted
* `Program.Compatible`: whether a program accepts all definitions of another one
* `Program.join`: the lists of the first program, its areas widened, each followed by what is new

## Main Statements

* `Program.insert_eq`: an insertion is a test and `put`
* `Program.insert_eq_of_not_absorbs`: what is not absorbed is appended under a free name, or refused
* `Program.merge_eq`: a merge is a test of the definitions in order and `join`
* `Program.namesOf_join`: the names of a join, sort by sort
-/

namespace Overpass

/-- An area that also stands for a further definition of its name: if that one is an area, the kind
covers both kinds. -/
def Area.widenBy (a : Area) : Option Definition → Area
  | some (.area other) => { a with kind := a.kind.widen other.kind }
  | _ => a

/-- Widening an area changes its kind and nothing else, so it stays over the same region. -/
@[simp] theorem Area.region_widenBy (a : Area) (found : Option Definition) :
    (a.widenBy found).region = a.region := by
  unfold widenBy
  split <;> rfl

@[simp] theorem Area.name_widenBy (a : Area) (found : Option Definition) :
    (a.widenBy found).name = a.name := by
  rw [name, region_widenBy, name]

@[simp] theorem Area.widenBy_none (a : Area) : a.widenBy none = a := rfl

@[simp] theorem Area.signature_widenBy (a : Area) (found : Option Definition) :
    (Definition.area (a.widenBy found)).signature = (Definition.area a).signature := by
  simp [Definition.signature, Definition.name, Definition.binding, Definition.references]

/-- A definition that also stands for a further one of its name. Only areas change. -/
def Definition.widenBy : Definition → Option Definition → Definition
  | area a, found => area (a.widenBy found)
  | selection s, _ => selection s
  | operation o, _ => operation o

/-- A widened definition has the signature that it had: kinds of areas are not part of signatures.
So a join has the signatures of the first program, which is why references stay good in it. -/
@[simp] theorem Definition.signature_widenBy (d : Definition) (found : Option Definition) :
    (d.widenBy found).signature = d.signature := by
  cases d with
  | area a => exact a.signature_widenBy found
  | selection s => rfl
  | operation o => rfl

@[simp] theorem Definition.name_widenBy (d : Definition) (found : Option Definition) :
    (d.widenBy found).name = d.name :=
  congrArg Signature.name (d.signature_widenBy found)

@[simp] theorem Definition.widenBy_none (d : Definition) : d.widenBy none = d := by
  cases d <;> rfl

/-- Only areas are widened to areas. With the two lemmas below, what stands in a join can be traced
back to the first program, whichever list it stands in. -/
theorem Definition.widenBy_eq_area_iff {d : Definition} {found : Option Definition} {a : Area} :
    d.widenBy found = area a ↔ ∃ b, d = area b ∧ b.widenBy found = a := by
  cases d <;> simp [widenBy]

theorem Definition.widenBy_eq_selection_iff {d : Definition} {found : Option Definition}
    {s : Selection} : d.widenBy found = selection s ↔ d = selection s := by
  cases d <;> simp [widenBy]

theorem Definition.widenBy_eq_operation_iff {d : Definition} {found : Option Definition}
    {o : Operation} : d.widenBy found = operation o ↔ d = operation o := by
  cases d <;> simp [widenBy]

/-- Scopes that are equal refer to the same names. Inline regions may differ in the signs of their
zeros, but they refer to no names at all. -/
theorem Scope.Equal.references_eq {s t : Scope} (h : s.Equal t) : s.references = t.references := by
  cases s with
  | named m =>
      cases t with
      | named n =>
          have hnames : m = n := h
          rw [hnames]
      | inline region => cases h
  | inline region =>
      cases t with
      | named n => cases h
      | inline other => rfl

/-- Definitions agree if they are of one sort and equal, areas by their regions alone. All later
arguments about agreement start from these three cases. -/
theorem Definition.agrees_iff {d e : Definition} :
    d.Agrees e ↔
      (∃ a b, d = area a ∧ e = area b ∧ a.region.Equal b.region) ∨
      (∃ s t, d = selection s ∧ e = selection t ∧ s.Equal t) ∨
      ∃ o, d = operation o ∧ e = operation o := by
  cases d <;> cases e <;> simp [Agrees, eq_comm]

/-- Definitions that agree have the same signature: they bind the same name in the same way and
refer to the same names. What they may differ in is the kind of an area and the sign of a zero. -/
theorem Definition.Agrees.signature_eq {d e : Definition} (h : d.Agrees e) :
    d.signature = e.signature := by
  rcases agrees_iff.mp h with ⟨a, b, rfl, rfl, hregion⟩ | ⟨s, t, rfl, rfl, heq⟩ | ⟨o, rfl, rfl⟩
  · have hname : a.name = b.name := hregion.1
    simp only [signature, name, binding, references, hname]
  · have hname : s.name = t.name := heq.1
    have hreferences : s.scope.references = t.scope.references := heq.2.2.1.references_eq
    simp only [signature, name, binding, references, hname, hreferences]
  · rfl

namespace Program

variable {p q r : Program} {d e : Definition} {n : SetName} {b : Binding}

/-! ### One insertion -/

/-- A definition is accepted if its name is free or bound to a definition that agrees with it. -/
def Accepts (p : Program) (d : Definition) : Prop :=
  ∀ current, p.definition? d.name = some current → current.Agrees d

instance (p : Program) (d : Definition) : Decidable (p.Accepts d) :=
  match h : p.definition? d.name with
  | none => isTrue fun current hcurrent => by simp [h] at hcurrent
  | some current =>
      decidable_of_iff (current.Agrees d)
        ⟨fun hagrees other hother => by rw [h] at hother; cases hother; exact hagrees,
          fun haccepts => haccepts current h⟩

theorem accepts_of_notMem_names (h : d.name ∉ p.names) : p.Accepts d := by
  intro current hcurrent
  rw [definition?_eq_none_iff.mpr h] at hcurrent
  cases hcurrent

/-- If a definition of a name that is bound is accepted, some definition that is there agrees. -/
theorem Accepts.exists_agrees (h : p.Accepts d) (hname : d.name ∈ p.names) :
    ∃ current ∈ p.definitions, current.Agrees d := by
  cases hfind : p.definition? d.name with
  | none => exact absurd hname (definition?_eq_none_iff.mp hfind)
  | some current => exact ⟨current, (mem_of_definition?_eq_some hfind).1, h current hfind⟩

/-- What an accepted insertion makes of a program: a definition of a name that is there is absorbed,
and any other one is appended. -/
def put (p : Program) (d : Definition) : Program :=
  if d.name ∈ p.names then p.absorb d else p.append d

/-- What is put under a name that is bound is absorbed. At most the kind of an area changes by
this. -/
theorem put_of_mem (h : d.name ∈ p.names) : p.put d = p.absorb d := if_pos h

theorem put_of_notMem (h : d.name ∉ p.names) : p.put d = p.append d := if_neg h

/-- An insertion is a test, and `put` where the test succeeds. The test and the change are treated
apart from here on: merging tests every definition against the first program, and only then are they
put. -/
theorem insert_eq (p : Program) (d : Definition) :
    p.insert d = if p.Accepts d then .ok (p.put d) else .error (.nameConflict d.name) := by
  unfold insert
  cases hfind : p.definition? d.name with
  | none =>
      have hfree := definition?_eq_none_iff.mp hfind
      rw [if_pos (accepts_of_notMem_names hfree), put_of_notMem hfree]
  | some current =>
      have hbound : d.name ∈ p.names := by
        by_contra hfree
        rw [definition?_eq_none_iff.mpr hfree] at hfind
        cases hfind
      have haccepts : p.Accepts d ↔ current.Agrees d := by simp [Accepts, hfind]
      simp only [haccepts, put_of_mem hbound]

/-- A definition is absorbed if its name is bound already, to a definition that agrees with it: then
the insertion succeeds and adds nothing. -/
def Absorbs (p : Program) (d : Definition) : Prop :=
  ∃ current, p.definition? d.name = some current ∧ current.Agrees d

/-- What is absorbed has the signature of a definition that is there. So nothing is lost when the
copy of the right side is dropped. -/
theorem Absorbs.signature_mem (h : p.Absorbs d) : d.signature ∈ p.signatures := by
  obtain ⟨current, hcurrent, hagrees⟩ := h
  rw [← hagrees.signature_eq]
  exact signature_mem_signatures (mem_of_definition?_eq_some hcurrent).1

/-- A definition that is not absorbed is accepted if and only if its name is free. So for new
definitions the test of an insertion is about names only. -/
theorem accepts_iff_of_not_absorbs (h : ¬ p.Absorbs d) : p.Accepts d ↔ d.name ∉ p.names := by
  refine ⟨fun haccepts hname => ?_, accepts_of_notMem_names⟩
  cases hfind : p.definition? d.name with
  | none => exact definition?_eq_none_iff.mp hfind hname
  | some current => exact h ⟨current, hfind, haccepts current hfind⟩

/-- A definition that is not absorbed is refused if its name is bound, and appended otherwise. -/
theorem insert_eq_of_not_absorbs (h : ¬ p.Absorbs d) :
    p.insert d = if d.name ∈ p.names then .error (.nameConflict d.name) else .ok (p.append d) := by
  rw [insert_eq]
  by_cases hname : d.name ∈ p.names
  · rw [if_neg (by simpa [accepts_iff_of_not_absorbs h] using hname), if_pos hname]
  · rw [if_pos (accepts_of_notMem_names hname), if_neg hname, put_of_notMem hname]

/-- Widening areas changes no name, so the names of a program are the same before and after
something is absorbed. -/
theorem map_name_widenArea (areas : List Area) (m : SetName) (k : ElementKind) :
    (widenArea areas m k).map Area.name = areas.map Area.name := by
  rw [widenArea, List.map_map]
  refine List.map_congr_left fun a _ => ?_
  dsimp only [Function.comp_apply]
  split_ifs <;> rfl

/-- A program that absorbs a definition binds the names that it bound before, in the same order. -/
theorem names_absorb (p : Program) (d : Definition) : (p.absorb d).names = p.names := by
  cases d with
  | area a => simp only [names_eq, namesOf, absorb, map_name_widenArea]
  | selection s => rfl
  | operation o => rfl

/-- Widening the area of a name leaves the areas of all other names alone. -/
theorem find?_widenArea_of_ne (areas : List Area) {m : SetName} (k : ElementKind) (h : n ≠ m) :
    ((widenArea areas m k).find? fun a => a.name == n) = areas.find? fun a => a.name == n := by
  induction areas with
  | nil => rfl
  | cons a rest ih =>
      rw [widenArea, List.map_cons]
      by_cases ha : a.name = m
      · have hne : (a.region.name == n) = false := by
          rw [show a.region.name = m from ha]
          simpa using h.symm
        rw [if_pos ha, List.find?_cons, List.find?_cons]
        simp only [Area.name, hne]
        exact ih
      · rw [if_neg ha, List.find?_cons, List.find?_cons]
        cases a.name == n with
        | true => rfl
        | false => exact ih

/-- An insertion leaves the definitions of all other names alone. This is what makes the definitions
of a merge independent of one another. -/
theorem definition?_put_of_ne (p : Program) (h : n ≠ d.name) :
    (p.put d).definition? n = p.definition? n := by
  have hne : (d.name == n) = false := by simpa using h.symm
  unfold put
  split_ifs
  · cases d with
    | area a =>
        have hareas := find?_widenArea_of_ne p.areas a.kind (m := a.name) h
        simp only [definition?, absorb, definitions, List.find?_append, List.find?_map,
          Function.comp_def, Definition.name, hareas]
    | selection s => rfl
    | operation o => rfl
  · cases d <;> simp only [definition?, append, definitions, List.map_append, List.find?_append,
      List.map_cons, List.map_nil, List.find?_cons, hne, List.find?_nil, Option.or_none]

/-- Whether a definition is accepted does not depend on what was inserted under other names. So all
definitions of a merge can be tested against the program before the merge. -/
theorem accepts_put_iff (p : Program) (h : e.name ≠ d.name) :
    (p.put d).Accepts e ↔ p.Accepts e := by
  simp only [Accepts, definition?_put_of_ne p h]

/-! ### Many insertions -/

/-- Inserting definitions of different names tests all of them against the program at the start. -/
theorem foldlM_insert (ds : List Definition) (hds : (ds.map Definition.name).Nodup) (p : Program) :
    ds.foldlM insert p =
      match ds.find? fun d => ¬ p.Accepts d with
      | some d => .error (.nameConflict d.name)
      | none => .ok (ds.foldl put p) := by
  induction ds generalizing p with
  | nil => rfl
  | cons d rest ih =>
      rw [List.map_cons, List.nodup_cons] at hds
      rw [List.foldlM_cons, insert_eq]
      by_cases haccepts : p.Accepts d
      -- The definitions that follow have other names, so `put` changes none of their tests.
      · have hrest : (rest.find? fun e => ¬ (p.put d).Accepts e) =
            rest.find? fun e => ¬ p.Accepts e := by
          refine List.find?_congr fun e he => ?_
          have hne : e.name ≠ d.name := fun heq => hds.1 (heq ▸ List.mem_map_of_mem he)
          simp only [accepts_put_iff p hne]
        rw [if_pos haccepts, List.find?_cons_of_neg (by simpa using haccepts), ← hrest]
        exact ih hds.2 (p.put d)
      · rw [if_neg haccepts, List.find?_cons_of_pos (by simpa using haccepts)]
        rfl

/-! ### The join of two programs -/

/-- The program whose areas also stand for the definitions of their names among some others. -/
def widen (p : Program) (ds : List Definition) : Program :=
  { p with areas := p.areas.map fun a => a.widenBy (ds.find? fun d => d.name == a.name) }

/-- The definitions of the first program, its areas widened to cover those of the second, and in
each list those of the second whose names the first does not bind. -/
def join (p q : Program) : Program where
  areas := p.areas.map (fun a => a.widenBy (q.definition? a.name)) ++
    q.areas.filter fun a => a.name ∉ p.names
  selections := p.selections ++ q.selections.filter fun s => s.name ∉ p.names
  operations := p.operations ++ q.operations.filter fun o => o.name ∉ p.names

theorem find?_eq_none_of_notMem {ds : List Definition} (h : n ∉ ds.map Definition.name) :
    (ds.find? fun d => d.name == n) = none := by
  rw [List.find?_eq_none]
  intro d hd heq
  exact h (List.mem_map.mpr ⟨d, hd, by simpa using heq⟩)

/-- Absorbing a definition before widening is widening by that definition too. -/
theorem widen_absorb (p : Program) {ds : List Definition} (h : d.name ∉ ds.map Definition.name) :
    (p.absorb d).widen ds = p.widen (d :: ds) := by
  have hsplit : ∀ a : Area, a.widenBy ((d :: ds).find? fun e => e.name == a.name) =
      (if a.name = d.name then a.widenBy (some d) else a).widenBy
        (ds.find? fun e => e.name == a.name) := by
    intro a
    by_cases ha : a.name = d.name
    · have hnone : (ds.find? fun e => e.name == a.name) = none :=
        find?_eq_none_of_notMem (ha ▸ h)
      rw [if_pos ha, hnone, List.find?_cons_of_pos (by simpa using ha.symm), Area.widenBy_none]
    · rw [if_neg ha, List.find?_cons_of_neg (by simpa using Ne.symm ha)]
  unfold widen
  simp only [hsplit]
  cases d with
  | area b =>
      simp only [absorb, widenArea, List.map_map]
      congr 1
      refine List.map_congr_left fun a _ => ?_
      rw [Function.comp_apply]
      by_cases ha : a.name = b.name
      · rw [if_pos ha, if_pos (show a.name = (Definition.area b).name from ha)]
        rfl
      · rw [if_neg ha, if_neg (show a.name ≠ (Definition.area b).name from ha)]
  | selection s => simp [absorb, Area.widenBy]
  | operation o => simp [absorb, Area.widenBy]

/-- Appending a definition of a free name before widening is the same as appending it after. -/
theorem widen_append (p : Program) {ds : List Definition} (h : d.name ∉ ds.map Definition.name)
    (hfree : d.name ∉ p.names) : (p.append d).widen ds = (p.widen (d :: ds)).append d := by
  have hnone := find?_eq_none_of_notMem h
  have hareas : (p.areas.map fun a => a.widenBy (ds.find? fun e => e.name == a.name)) =
      p.areas.map fun a => a.widenBy ((d :: ds).find? fun e => e.name == a.name) := by
    refine List.map_congr_left fun a ha => ?_
    have hne : d.name ≠ a.name := by
      rintro heq
      exact hfree (heq ▸ name_mem_names (area_mem_definitions.mpr ha))
    rw [List.find?_cons_of_neg (by simpa using hne)]
  cases d with
  | area b =>
      simp only [widen, append, List.map_append, hareas, List.map_cons, List.map_nil,
        show (ds.find? fun e => e.name == b.name) = none from hnone, Area.widenBy_none]
  | selection s => simp only [widen, append, hareas]
  | operation o => simp only [widen, append, hareas]

/-- Accepting definitions of different names widens the areas and appends what is new. By induction
on the definitions, of which none changes what happens to the others. -/
theorem foldl_put (ds : List Definition) (hds : (ds.map Definition.name).Nodup) (p : Program) :
    ds.foldl put p = (ds.filter fun d => d.name ∉ p.names).foldl append (p.widen ds) := by
  induction ds generalizing p with
  | nil => simp [widen]
  | cons d rest ih =>
      rw [List.map_cons, List.nodup_cons] at hds
      rw [List.foldl_cons, ih hds.2]
      by_cases h : d.name ∈ p.names
      · rw [put_of_mem h, names_absorb, widen_absorb p hds.1,
          List.filter_cons_of_neg (by simpa using h)]
      · have hrest : (rest.filter fun e => e.name ∉ (p.append d).names) =
            rest.filter fun e => e.name ∉ p.names := by
          refine List.filter_congr fun e he => ?_
          have hne : e.name ≠ d.name := fun heq => hds.1 (heq ▸ List.mem_map_of_mem he)
          simp [mem_names_append, hne]
        rw [put_of_notMem h, hrest, widen_append p hds.1 h,
          List.filter_cons_of_pos (by simpa using h), List.foldl_cons]

/-- Appending the definitions of a program appends each of its lists. The three lists never mix, in
whatever order the definitions come. -/
theorem foldl_append (p : Program) (as : List Area) (ss : List Selection) (os : List Operation) :
    (as.map Definition.area ++ ss.map Definition.selection ++
        os.map Definition.operation).foldl append p =
      ⟨p.areas ++ as, p.selections ++ ss, p.operations ++ os⟩ := by
  have hareas : ∀ p : Program, (as.map Definition.area).foldl append p =
      { p with areas := p.areas ++ as } := by
    induction as with
    | nil => intro p; simp
    | cons a rest ih => intro p; simp [append, ih]
  have hselections : ∀ p : Program, (ss.map Definition.selection).foldl append p =
      { p with selections := p.selections ++ ss } := by
    induction ss with
    | nil => intro p; simp
    | cons s rest ih => intro p; simp [append, ih]
  have hoperations : ∀ p : Program, (os.map Definition.operation).foldl append p =
      { p with operations := p.operations ++ os } := by
    induction os with
    | nil => intro p; simp
    | cons o rest ih => intro p; simp [append, ih]
  rw [List.foldl_append, List.foldl_append, hareas, hselections, hoperations]

/-- Putting the definitions of a program one after another gives the join. The join is written down
in one go, without an order of steps, and this lemma is the only one about the steps. -/
theorem foldl_put_definitions (p : Program) (hq : q.names.Nodup) :
    q.definitions.foldl put p = p.join q := by
  rw [foldl_put q.definitions hq]
  simp only [definitions, List.filter_append, List.filter_map, Function.comp_def, foldl_append]
  rfl

/-- A program is compatible with another one if it accepts all definitions of the other. -/
def Compatible (p q : Program) : Prop := ∀ d ∈ q.definitions, p.Accepts d

instance (p q : Program) : Decidable (p.Compatible q) :=
  inferInstanceAs (Decidable (∀ d ∈ q.definitions, p.Accepts d))

/-- **Merging in closed form.** The definitions of the second program are tested in order against
the first program, and if all of them are accepted the result is the join. -/
theorem merge_eq (p : Program) (hq : q.names.Nodup) :
    p.merge q =
      match q.definitions.find? fun d => ¬ p.Accepts d with
      | some d => .error (.nameConflict d.name)
      | none => .ok (p.join q) := by
  rw [merge, foldlM_insert q.definitions hq, foldl_put_definitions p hq]

/-- **A merge succeeds exactly on compatible programs, and gives their join.** All that is proved
about merges below goes through this lemma: compatibility is a relation of two programs, and the
join a function. -/
theorem merge_eq_ok_iff (p : Program) (hq : q.names.Nodup) :
    p.merge q = .ok r ↔ p.Compatible q ∧ r = p.join q := by
  have hnone : (q.definitions.find? fun d => ¬ p.Accepts d) = none ↔ p.Compatible q := by
    simp [Compatible]
  rw [merge_eq p hq]
  cases hfind : q.definitions.find? fun d => ¬ p.Accepts d with
  | none => simp [hnone.mp hfind, eq_comm]
  | some d =>
      have hnot : ¬ p.Compatible q := fun hcompatible => by
        rw [hnone.mpr hcompatible] at hfind
        cases hfind
      simp [hnot]

/-- The definitions of a join are those of the first program, widened, and those that the second one
adds. -/
theorem mem_definitions_join :
    d ∈ (p.join q).definitions ↔
      (∃ e ∈ p.definitions, e.widenBy (q.definition? e.name) = d) ∨
        d ∈ q.definitions ∧ d.name ∉ p.names := by
  cases d with
  | area a =>
      simp only [Definition.widenBy_eq_area_iff, area_mem_definitions, join, List.mem_append,
        List.mem_map, List.mem_filter, decide_eq_true_eq]
      refine or_congr ⟨?_, ?_⟩ Iff.rfl
      · rintro ⟨b, hb, rfl⟩
        exact ⟨.area b, area_mem_definitions.mpr hb, b, rfl, rfl⟩
      · rintro ⟨_, he, b, rfl, rfl⟩
        exact ⟨b, area_mem_definitions.mp he, rfl⟩
  | selection s =>
      simp [Definition.widenBy_eq_selection_iff, join, Definition.name]
  | operation o =>
      simp [Definition.widenBy_eq_operation_iff, join, Definition.name]

/-- The areas of the first program stand in the join, widened by what the second one has under their
names. -/
theorem widenBy_mem_definitions_join {a : Area} (ha : .area a ∈ p.definitions) (q : Program) :
    .area (a.widenBy (q.definition? a.name)) ∈ (p.join q).definitions :=
  mem_definitions_join.mpr (Or.inl ⟨.area a, ha, rfl⟩)

/-- What the second program adds stands in the join as it is. What it has in common with the first
one was there already. -/
theorem mem_definitions_join_of_notMem (hd : d ∈ q.definitions) (hnew : d.name ∉ p.names) :
    d ∈ (p.join q).definitions :=
  mem_definitions_join.mpr (Or.inr ⟨hd, hnew⟩)

/-- The names of a join, sort by sort: those of the first program, then the new ones of the
second. -/
theorem namesOf_join (p q : Program) (b : Binding) :
    (p.join q).namesOf b = p.namesOf b ++ (q.namesOf b).filter fun n => n ∉ p.names := by
  cases b <;>
    simp [join, namesOf, List.filter_map, Function.comp_def, List.map_map, Area.name_widenBy]

/-- A sort binds a name in a join if it does in the first program, or if it does in the second one
and the name is new to the first. The condition cannot be dropped: in programs that are not
compatible a name may be bound by different sorts. -/
theorem mem_namesOf_join :
    n ∈ (p.join q).namesOf b ↔ n ∈ p.namesOf b ∨ n ∈ q.namesOf b ∧ n ∉ p.names := by
  simp [namesOf_join]

theorem mem_signatures_join {x : Signature} :
    x ∈ (p.join q).signatures ↔ x ∈ p.signatures ∨ x ∈ q.signatures ∧ x.name ∉ p.names := by
  simp only [signatures, definitions, join, List.map_append, List.map_map, List.mem_append,
    List.mem_map, List.mem_filter, Function.comp_apply, Area.signature_widenBy, decide_eq_true_eq]
  constructor
  · grind [Definition.signature, Definition.name]
  · grind [Definition.signature, Definition.name]

theorem mem_names_join : n ∈ (p.join q).names ↔ n ∈ p.names ∨ n ∈ q.names := by
  simp only [mem_names, mem_namesOf_join]
  grind

end Program

end Overpass
