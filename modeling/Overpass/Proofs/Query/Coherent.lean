import Mathlib.Data.Set.Insert
import Overpass.Proofs.Program.Compatible
import Overpass.Proofs.Query.Call
import Overpass.Proofs.Query.Refusal

/-!
# Coherent queries

Whether two programs can be merged depends on both of them, and a caller can merge any two queries
built so far. So what is kept from call to call is a property of all of these queries together: a
name is bound to one definition throughout. This is what `Coherent` says, and a task that is
performed under a new name preserves it.

The names are of two sorts. Those of areas come from the regions that callers bring in, and the
regions of one name are equal. All others were taken for a task, each for one task only, and are
therefore bound to one definition wherever they occur.

## Main Definitions

* `Conflicts`: whether something is refused because of a name
* `Program.Fits`: a program whose names are known and which can be merged with all queries built
* `Coherent`: queries that can all be merged with each other
* `IsNew`: a name that no query binds

## Main Statements

* `Coherent.extend`: a definition of a new name keeps queries coherent
* `Coherent.perform`: a task under a new name is not refused because of a name, and keeps queries
  coherent
-/

namespace Overpass

open Program

/-! ### Refusals because of a name -/

/-- Whether something is refused because of a name, whichever name it is. -/
def Conflicts {α : Type} (result : Except QueryError α) : Prop :=
  ∃ n, result = .error (.nameConflict n)

section Conflicts

variable {α β : Type}

theorem not_conflicts_ok (a : α) : ¬ Conflicts (.ok a) := by
  rintro ⟨n, h⟩
  cases h

/-- Steps in a row do not conflict if none of them does. The second step may rely on the result of
the first. -/
theorem not_conflicts_bind {first : Except QueryError α} {next : α → Except QueryError β}
    (hfirst : ¬ Conflicts first) (hnext : ∀ a, first = .ok a → ¬ Conflicts (next a)) :
    ¬ Conflicts (first >>= next) := by
  rintro ⟨n, h⟩
  rcases bind_eq_error_iff.mp h with h | ⟨a, ha, h⟩
  · exact hfirst ⟨n, h⟩
  · exact hnext a ha ⟨n, h⟩

/-- Tags are refused for their syntax only, so reading them is no conflict. The lemmas below say the
same of the other checks that a call makes before it touches a program. -/
theorem TagInput.not_conflicts_read (tags : TagInput) : ¬ Conflicts tags.read := by
  rintro ⟨n, h⟩
  obtain ⟨_, hcause⟩ := TagInput.exists_tagSyntax_of_read h
  cases hcause

theorem Direction.not_conflicts_parse (marker : String) : ¬ Conflicts (Direction.parse marker) := by
  rintro ⟨n, h⟩
  obtain ⟨_, hcause⟩ := Direction.exists_unknownMarker_of_parse h
  cases hcause

theorem SetName.not_conflicts_parse (text : String) : ¬ Conflicts (SetName.parse text) := by
  rintro ⟨n, h⟩
  cases SetName.eq_invalidName_of_parse h

/-- A place is refused for its numbers, or for being an operation, and never for a name: a region
that is resolved goes into a program of its own. -/
theorem Place.not_conflicts_resolve (place : Place) (resolver : Resolver) (kind : ElementKind) :
    ¬ Conflicts (place.resolve resolver kind) := by
  have hregion : ∀ result : Except RegionError (Program × Scope),
      ¬ Conflicts (result.mapError QueryError.region) := by
    rintro (cause | resolved) ⟨n, h⟩ <;> cases h
  cases place with
  | query q =>
      rintro ⟨n, h⟩
      rw [resolve] at h
      split_ifs at h
      cases h
  | polygon p => exact hregion _
  | bbox b => exact hregion _
  | outline points => exact hregion _
  | region r => exact not_conflicts_ok _
  | inline r => exact not_conflicts_ok _

theorem Query.not_conflicts_checkOperands (operator : BinaryOperator) (a b : Query) :
    ¬ Conflicts (Query.checkOperands operator a b) := by
  rintro ⟨n, h⟩
  unfold Query.checkOperands at h
  split at h
  · cases h
  · cases h
  · split_ifs at h
    cases h

/-- Arguments of a call are refused for other reasons than names. So a conflict can only come from
the task of the call, where programs are merged and extended. -/
theorem Call.ne_nameConflict_of_task? {call : Call} {cause : QueryError}
    (h : call.task? = some (.error cause)) (n : SetName) : cause ≠ .nameConflict n := by
  rintro rfl
  have hrefused : ∀ checked : Except QueryError Task, ¬ Conflicts checked →
      some checked ≠ some (.error (.nameConflict n)) :=
    fun checked hchecked heq => hchecked ⟨n, Option.some.inj heq⟩
  cases call with
  | select kind tags text? place? resolver =>
      refine hrefused _ (not_conflicts_bind tags.not_conflicts_read fun filter _ => ?_) h
      cases place? with
      | none => rintro ⟨_, ⟨⟩⟩
      | some place => exact not_conflicts_ok _
  | recurseMarker marker source =>
      exact hrefused _ (not_conflicts_bind (Direction.not_conflicts_parse marker) fun direction _ =>
        not_conflicts_ok _) h
  | combineAs | combine | recurseAs | recurse | combineAll | negate => cases h

end Conflicts

/-! ### Coherence -/

/-- A name that no query binds, as far as the regions brought in and the names taken tell. -/
structure IsNew (regions : List Region) (taken : Set SetName) (n : SetName) : Prop where
  notMem : n ∉ taken
  ne_region : ∀ r ∈ regions, r.name ≠ n

/-- A program that fits to the queries built so far: areas are of the regions that were brought in,
all other names were taken, and it can be merged with each of the queries and with itself. -/
structure Program.Fits (regions : List Region) (taken : Set SetName) (built : List Query)
    (p : Program) : Prop where
  nodup : p.names.Nodup
  known : ∀ d ∈ p.definitions, (∃ a, d = .area a ∧ a.region ∈ regions) ∨ d.name ∈ taken
  compatible : ∀ q ∈ built, p.Compatible q.program
  compatible_self : p.Compatible p

/-- Queries that can all be merged with each other, and regions that can be brought in. -/
structure Coherent (regions : List Region) (taken : Set SetName) (built : List Query) : Prop where
  apart : ∀ r ∈ regions, r.name ∉ taken
  equal : ∀ r ∈ regions, ∀ s ∈ regions, r.name = s.name → r.Equal s
  formed : ∀ q ∈ built, ∃ e, Formed e q
  fits : ∀ q ∈ built, q.program.Fits regions taken built

variable {regions : List Region} {taken taken' : Set SetName} {built built' : List Query}
  {p q : Program} {d : Definition} {n : SetName}

namespace Program.Fits

/-- A program that fits still does if more names are taken, or fewer queries count as built. -/
theorem mono (h : p.Fits regions taken built) (htaken : taken ⊆ taken') (hbuilt : built' ⊆ built) :
    p.Fits regions taken' built' where
  nodup := h.nodup
  known d hd := (h.known d hd).imp_right fun hname => htaken hname
  compatible q hq := h.compatible q (hbuilt hq)
  compatible_self := h.compatible_self

/-- A new name is not bound in a program that fits: all names in it are those of regions, from which
a new name differs, or were taken before. -/
theorem ne_of_isNew (h : p.Fits regions taken built) (hn : IsNew regions taken n)
    (hd : d ∈ p.definitions) : d.name ≠ n := by
  rintro rfl
  rcases h.known d hd with ⟨a, rfl, hregion⟩ | hname
  · exact hn.ne_region a.region hregion rfl
  · exact hn.notMem hname

/-- So a definition of a new name can be appended to a program that fits. -/
theorem notMem_names (h : p.Fits regions taken built) (hn : IsNew regions taken n) :
    n ∉ p.names := by
  intro hmem
  obtain ⟨d, hd, hname⟩ := List.mem_map.mp hmem
  exact h.ne_of_isNew hn hd hname

theorem empty : Program.empty.Fits regions taken built where
  nodup := wellFormed_empty.nodup
  known _ hd := absurd hd List.not_mem_nil
  compatible _ _ := (compatible_iff wellFormed_empty.nodup).mpr
    fun _ hd => absurd hd List.not_mem_nil
  compatible_self _ hd := absurd hd List.not_mem_nil

/-- A join of programs that fit, if they are compatible, fits again. Its compatibility with the
other queries and with itself follows from that of its sides. -/
theorem join (hp : p.Fits regions taken built) (hq : q.Fits regions taken built)
    (hpq : p.Compatible q) : (p.join q).Fits regions taken built := by
  have hnodup := nodup_names_join hp.nodup hq.nodup
  refine ⟨hnodup, ?_, ?_, ?_⟩
  · intro d hd
    rcases mem_definitions_join.mp hd with ⟨e, he, rfl⟩ | ⟨hd, -⟩
    · refine (hp.known e he).imp ?_ fun hname => ?_
      · rintro ⟨a, rfl, hregion⟩
        exact ⟨_, rfl, by rwa [Area.region_widenBy]⟩
      · rwa [Definition.name_widenBy]
    · exact hq.known d hd
  · exact fun r hr => (hp.compatible r hr).join_left (hq.compatible r hr) hp.nodup hq.nodup
  · have hleft := hp.compatible_self.join_left (hpq.symm hp.nodup hq.nodup) hp.nodup hq.nodup
    have hright := hpq.join_left hq.compatible_self hp.nodup hq.nodup
    exact (hleft.symm hnodup hp.nodup).join_left (hright.symm hnodup hq.nodup) hp.nodup hq.nodup

/-- A program that fits still does after it grew by a definition of a new name. The other queries do
not bind that name, so they have nothing to object to. -/
theorem append (h : p.Fits regions taken built) (hd : d.Agrees d)
    (hnew : IsNew regions taken d.name) (hbuilt : ∀ q ∈ built, q.program.Fits regions taken built) :
    (p.append d).Fits regions (taken ∪ {d.name}) (p.extend d :: built) := by
  have hfree := h.notMem_names hnew
  have hnodup := nodup_names_append h.nodup hfree
  have hself : (p.append d).Compatible (p.append d) := by
    have hp : (p.append d).Compatible p := h.compatible_self.append_left h.nodup hfree
      fun e he hname => absurd hname.symm (h.ne_of_isNew hnew he)
    refine (hp.symm hnodup h.nodup).append_left h.nodup hfree fun e he hname => ?_
    rcases mem_definitions_append.mp he with he | rfl
    · exact absurd hname.symm (h.ne_of_isNew hnew he)
    · exact hd
  refine ⟨hnodup, ?_, ?_, hself⟩
  · intro e he
    rcases mem_definitions_append.mp he with he | rfl
    · exact (h.known e he).imp_right Or.inl
    · exact Or.inr (Or.inr rfl)
  · intro q hq
    rcases List.mem_cons.mp hq with rfl | hq
    · exact hself
    · exact (h.compatible q hq).append_left h.nodup hfree
        fun e he hname => absurd hname.symm ((hbuilt q hq).ne_of_isNew hnew he)

end Program.Fits

namespace Coherent

/-- Before anything is built, all that coherence asks for is that regions of one name are equal and
that no region has a name that was taken. -/
theorem nil (equal : ∀ r ∈ regions, ∀ s ∈ regions, r.name = s.name → r.Equal s)
    (apart : ∀ r ∈ regions, r.name ∉ taken) : Coherent regions taken [] where
  apart := apart
  equal := equal
  formed _ hq := absurd hq List.not_mem_nil
  fits _ hq := absurd hq List.not_mem_nil

/-- Fewer queries are coherent, and names may be taken in vain: a call that fails after taking a
name does no harm. -/
theorem mono (h : Coherent regions taken built) (htaken : taken ⊆ taken')
    (hbuilt : built' ⊆ built) (apart : ∀ r ∈ regions, r.name ∉ taken') :
    Coherent regions taken' built' where
  apart := apart
  equal := h.equal
  formed q hq := h.formed q (hbuilt hq)
  fits q hq := (h.fits q (hbuilt hq)).mono htaken hbuilt

/-- A new name is taken, as long as no region has it. Nothing is said yet of what it will be bound
to. -/
theorem take (h : Coherent regions taken built) (hn : IsNew regions taken n) :
    Coherent regions (taken ∪ {n}) built := by
  refine h.mono Set.subset_union_left (List.Subset.refl built) fun r hr hmem => ?_
  rcases hmem with hname | hname
  · exact h.apart r hr hname
  · exact hn.ne_region r hr hname

/-- The area of a region that was brought in fits: wherever its name is bound, it is bound to an
equal region. -/
theorem fits_shared (h : Coherent regions taken built) {region : Region}
    (hregion : region ∈ regions) (kind : ElementKind) :
    (Place.shared kind region).1.Fits regions taken built := by
  have hnodup : (Place.shared kind region).1.names.Nodup := List.nodup_singleton region.name
  refine ⟨hnodup, ?_, ?_, ?_⟩
  · intro d hd
    rw [List.mem_singleton.mp hd]
    exact Or.inl ⟨_, rfl, hregion⟩
  · intro q hq
    rw [compatible_iff hnodup]
    intro d hd e he hname
    rw [List.mem_singleton.mp hd] at hname ⊢
    rcases (h.fits q hq).known e he with ⟨a, rfl, ha⟩ | htaken
    · exact h.equal region hregion a.region ha hname
    · rw [← hname] at htaken
      exact absurd htaken (h.apart region hregion)
  · rw [compatible_iff hnodup]
    intro d hd e he _
    rw [List.mem_singleton.mp hd, List.mem_singleton.mp he]
    exact h.equal region hregion region hregion rfl

/-- **A definition of a new name keeps queries coherent.** The new query is compatible with all
others because it adds to a program that fits only what no other query binds, and what agrees with
itself. -/
theorem extend (h : Coherent regions taken built) (hp : p.Fits regions taken built)
    (hd : d.Agrees d) (hnew : IsNew regions taken d.name)
    (hformed : ∃ e, Formed e (p.extend d)) :
    Coherent regions (taken ∪ {d.name}) (p.extend d :: built) := by
  have happend := hp.append hd hnew h.fits
  have htake := h.take hnew
  refine ⟨htake.apart, h.equal, ?_, ?_⟩
  · intro q hq
    rcases List.mem_cons.mp hq with rfl | hq
    · exact hformed
    · exact h.formed q hq
  · intro q hq
    rcases List.mem_cons.mp hq with rfl | hq
    · exact happend
    · have hfits := htake.fits q hq
      refine ⟨hfits.nodup, hfits.known, fun r hr => ?_, hfits.compatible_self⟩
      rcases List.mem_cons.mp hr with rfl | hr
      · exact (happend.compatible q (List.mem_cons_of_mem _ hq)).symm happend.nodup hfits.nodup
      · exact hfits.compatible r hr

/-- What a place brings along fits, and the selection from it agrees with itself. A region that is
printed inline has to be equal to itself for this, as it is compared too. -/
theorem fits_resolve (h : Coherent regions taken built) {place : Place} {resolver : Resolver}
    {kind : ElementKind} {program : Program} {scope : Scope}
    (hplace : ∀ source, place = .query source → source ∈ built)
    (hregion : ∀ region, place.region? resolver = some region → region ∈ regions)
    (hresolve : place.resolve resolver kind = .ok (program, scope)) :
    program.Fits regions taken built ∧ scope.Equal scope := by
  rcases Place.eq_of_resolve_eq_ok hresolve with ⟨source, hsource, -, hresolved⟩ |
    ⟨region, hsome, hshared | hinline⟩
  · cases hresolved
    exact ⟨h.fits source (hplace source hsource), rfl⟩
  · cases hshared
    exact ⟨h.fits_shared (hregion region hsome) kind, rfl⟩
  · cases hinline
    have hmem := hregion region hsome
    exact ⟨.empty, h.equal region hmem region hmem rfl⟩

end Coherent

/-! ### One task -/

/-- An outcome that is no refusal because of a name and, if it is a query, extends a program that
fits by a definition of a given name. -/
structure Extends (regions : List Region) (taken : Set SetName) (built : List Query) (n : SetName)
    (result : Except QueryError Query) : Prop where
  not_conflicts : ¬ Conflicts result
  exists_fits : ∀ q, result = .ok q → ∃ (p : Program) (d : Definition),
    p.Fits regions taken built ∧ d.Agrees d ∧ d.name = n ∧ q = p.extend d

namespace Extends

variable {result : Except QueryError Query}

/-- A task that is refused before it comes to programs builds nothing and conflicts with nothing. -/
theorem of_error {α : Type} {first : Except QueryError α} {cause : QueryError}
    (hfirst : first = .error cause) (hresult : result = .error cause) (h : ¬ Conflicts first) :
    Extends regions taken built n result where
  not_conflicts := by
    rintro ⟨m, hm⟩
    rw [hresult] at hm
    cases hm
    exact h ⟨m, hfirst⟩
  exists_fits q hq := by
    rw [hresult] at hq
    cases hq

/-- A task that extends a program that fits, by a definition of the new name that agrees with
itself, does not conflict. -/
theorem of_ok (hp : p.Fits regions taken built) (hd : d.Agrees d) (hname : d.name = n)
    (hresult : result = .ok (p.extend d)) : Extends regions taken built n result where
  not_conflicts := by
    rw [hresult]
    exact not_conflicts_ok _
  exists_fits q hq := ⟨p, d, hp, hd, hname, Except.ok.inj (hq.symm.trans hresult)⟩

end Extends

namespace Coherent

variable {a b : Query}

/-- A combination of built queries under a new name is refused for their kinds or extends their
join. The merge cannot fail, since coherent queries are compatible. -/
theorem extends_combine (h : Coherent regions taken built) (ha : a ∈ built) (hb : b ∈ built)
    (hnew : IsNew regions taken n) (operator : BinaryOperator) :
    Extends regions taken built n (Query.combine operator a b n) := by
  obtain ⟨e, he⟩ := h.formed a ha
  obtain ⟨f, hf⟩ := h.formed b hb
  have hcompatible := (h.fits a ha).compatible b hb
  have hjoin := (h.fits a ha).join (h.fits b hb) hcompatible
  cases hkinds : Query.checkOperands operator a b with
  | error cause =>
      have hresult : Query.combine operator a b n = .error cause := by
        rw [Query.combine, hkinds]
        rfl
      exact .of_error hkinds hresult (Query.not_conflicts_checkOperands operator a b)
  | ok =>
      have hresult := he.combine_eq hf hkinds hcompatible n
      rw [if_neg (hjoin.notMem_names hnew)] at hresult
      have hagrees : (Definition.operation ⟨n, .binary operator a.root b.root⟩).Agrees
          (.operation ⟨n, .binary operator a.root b.root⟩) := rfl
      exact .of_ok hjoin hagrees rfl hresult

/-- A recursion over a built query under a new name extends its program. -/
theorem extends_follow (h : Coherent regions taken built) (ha : a ∈ built)
    (hnew : IsNew regions taken n) (direction : Direction) :
    Extends regions taken built n (Query.follow direction a n) := by
  obtain ⟨e, he⟩ := h.formed a ha
  have hfits := h.fits a ha
  have hresult := he.follow_eq direction n
  rw [if_neg (hfits.notMem_names hnew)] at hresult
  have hagrees : (Definition.operation ⟨n, .recurse direction a.root⟩).Agrees
      (.operation ⟨n, .recurse direction a.root⟩) := rfl
  exact .of_ok hfits hagrees rfl hresult

/-- A selection under a new name extends the program of its place: the area of a region, or the
query that it looks into. -/
theorem extends_finish (h : Coherent regions taken built) {place : Place} {resolver : Resolver}
    (hplace : ∀ source, place = .query source → source ∈ built)
    (hregion : ∀ region, place.region? resolver = some region → region ∈ regions)
    (hnew : IsNew regions taken n) (kind : ElementKind) (tags : TagFilter) :
    Extends regions taken built n (Draft.finish resolver kind tags place n) := by
  cases hresolve : place.resolve resolver kind with
  | error cause =>
      have hresult : Draft.finish resolver kind tags place n = .error cause := by
        rw [Draft.finish, hresolve]
        rfl
      exact .of_error hresolve hresult (place.not_conflicts_resolve resolver kind)
  | ok resolved =>
      obtain ⟨program, scope⟩ := resolved
      obtain ⟨hfits, hscope⟩ := h.fits_resolve hplace hregion hresolve
      have hformed : ∀ source, place = .query source → ∃ e, Formed e source :=
        fun source hsource => h.formed source (hplace source hsource)
      have hresult := Formed.finish_eq hformed hresolve tags n
      rw [if_neg (hfits.notMem_names hnew)] at hresult
      have hagrees : (Definition.selection ⟨n, kind, scope, tags⟩).Agrees
          (.selection ⟨n, kind, scope, tags⟩) :=
        show Selection.Equal _ _ from ⟨rfl, rfl, hscope, rfl⟩
      exact .of_ok hfits hagrees rfl hresult

/-- Queries stay coherent whatever becomes of a task under a new name: the name is taken in any
case, and a query is added if there is one. -/
theorem of_extends (h : Coherent regions taken built) (hnew : IsNew regions taken n)
    {result : Except QueryError Query} (hresult : Extends regions taken built n result)
    (hformed : ∀ q, result = .ok q → ∃ e, Formed e q) :
    Coherent regions (taken ∪ {n}) (result.toOption.toList ++ built) := by
  cases result with
  | error cause => exact h.take hnew
  | ok q =>
      obtain ⟨p, d, hp, hd, rfl, rfl⟩ := hresult.exists_fits q rfl
      exact h.extend hp hd hnew (hformed _ rfl)

/-- **A task on coherent queries.** Under a new name it is not refused because of a name, and
afterwards the queries are coherent still. -/
theorem perform (h : Coherent regions taken built) {task : Task}
    (hoperands : ∀ o ∈ task.operands, o ∈ built)
    (hregion : ∀ region, task.region? = some region → region ∈ regions)
    (hnew : IsNew regions taken n) :
    ¬ Conflicts (task.perform n) ∧
      Coherent regions (taken ∪ {n}) ((task.perform n).toOption.toList ++ built) := by
  have hextends : Extends regions taken built n (task.perform n) := by
    cases task with
    | select kind tags place resolver =>
        refine h.extends_finish (fun source hsource => ?_) hregion hnew kind tags
        subst hsource
        exact hoperands source List.mem_cons_self
    | combine operator a b =>
        exact h.extends_combine (hoperands a List.mem_cons_self)
          (hoperands b (List.mem_cons_of_mem a List.mem_cons_self)) hnew operator
    | recurse direction source =>
        exact h.extends_follow (hoperands source List.mem_cons_self) hnew direction
  exact ⟨hextends.not_conflicts, h.of_extends hnew hextends fun q hq =>
    Task.exists_formed (fun o ho => h.formed o (hoperands o ho)) hq⟩

end Coherent

end Overpass
