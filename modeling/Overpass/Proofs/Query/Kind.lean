import Overpass.Proofs.Program.Kind
import Overpass.Proofs.Query.Call

/-!
# Kinds of queries

The kind of a query is found by searching its program, which was merged from the programs of its
operands and may hold areas that were widened on the way. It nevertheless depends on the call that
gave the query, and on the kinds of the operands of that call, in the way one would write it down
for expressions. Nor does a call change what is known of its operands: each of their selections and
operations has in the new program the kind that it had before.

## Main Definitions

* `Task.kind`, `Call.kind`: the kind of what a call gives, from the kinds of its operands

## Main Statements

* `Task.kind_of_perform`: the kind of what a task gives, and of what its operands bring along
* `Call.kind_of_run`: the same for every call of the algebra
-/

namespace Overpass

open Program

/-- The kind of what a task gives. -/
def Task.kind : Task → Option ElementKind
  | select kind _ _ _ => some kind
  | combine operator a b => operator.kind a.kind b.kind
  | recurse _ _ => none

/-- The kind of what a call gives: that of a selection is the one that is asked for, and that of a
union, difference or intersection follows from the kinds of the operands. A recursion may lead to
any kind. -/
def Call.kind : Call → Option ElementKind
  | select kind _ _ _ _ => some kind
  | combineAs operator a b _ | combine operator a b => operator.kind a.kind b.kind
  | recurseAs _ _ _ | recurse _ _ | recurseMarker _ _ | negate _ => none
  | combineAll operator first others =>
    others.foldl (fun kind other => operator.kind kind other.kind) first.kind

/-! ### Extensions -/

/-- A selection that was appended last has its own kind, in whatever it selects from. -/
theorem Program.kind_extend_selection {p : Program} {s : Selection}
    (h : (p.extend (.selection s)).program.WellFormed) :
    (p.extend (.selection s)).kind = some s.kind :=
  kindOf_selection h.nodup (List.mem_append_right _ (List.mem_singleton.mpr rfl))

/-- An operation that was appended last has the kind that its formula has in the new program. Its
operands had theirs before, which is what the lemma after this is for. -/
theorem Program.kind_extend_operation {p : Program} {o : Operation}
    (h : (p.extend (.operation o)).program.WellFormed) :
    (p.extend (.operation o)).kind =
      o.formula.kind (p.extend (.operation o)).program.kindOf :=
  h.kindOf_operation (List.mem_append_right _ (List.mem_singleton.mpr rfl))

theorem Program.keepsKinds_extend (p : Program) (d : Definition) :
    p.KeepsKinds (p.extend d).program := keepsKinds_append p d

/-! ### Tasks -/

namespace Formed

variable {e f : Expression} {a b q : Query} {name : SetName} {p : Program}

/-- The root of a query has the kind of the query in every program that keeps its kinds. -/
theorem kindOf_root (ha : Formed e a) (hkeeps : a.program.KeepsKinds p) (hp : p.WellFormed) :
    p.kindOf a.root = a.kind :=
  hkeeps.kindOf_eq ha.wellFormed hp ha.root_mem

/-- The kind of a combination follows from the kinds of its operands, and these are kept in the
combined program. An intersection is the case in which the operands were checked. -/
theorem kind_combine {operator : BinaryOperator} (ha : Formed e a) (hb : Formed f b)
    (h : Query.combine operator a b name = .ok q) :
    q.kind = operator.kind a.kind b.kind ∧
      a.program.KeepsKinds q.program ∧ b.program.KeepsKinds q.program := by
  have hq : q.program.WellFormed := (ha.combine hb h).wellFormed
  obtain ⟨-, hcompatible, -, hextend⟩ := ha.eq_extend_of_combine hb h
  have hjoin : (a.program.join b.program).KeepsKinds q.program :=
    hextend ▸ keepsKinds_extend _ _
  have hleft := (keepsKinds_join_left a.program b.program).trans hjoin
  have hright := hcompatible.keepsKinds_join_right.trans hjoin
  refine ⟨?_, hleft, hright⟩
  rw [← ha.kindOf_root hleft hq, ← hb.kindOf_root hright hq]
  subst hextend
  exact kind_extend_operation hq

/-- A recursion has no known kind, and keeps the kinds of what it follows. -/
theorem kind_follow {direction : Direction} (ha : Formed e a)
    (h : Query.follow direction a name = .ok q) :
    q.kind = none ∧ a.program.KeepsKinds q.program := by
  have hq : q.program.WellFormed := (ha.follow h).wellFormed
  obtain ⟨-, rfl⟩ := ha.eq_extend_of_follow h
  exact ⟨kind_extend_operation hq, keepsKinds_extend _ _⟩

/-- A selection has the kind that it was started with, and keeps the kinds of the query that it
looks into, if it looks into one. -/
theorem kind_finish {resolver : Resolver} {kind : ElementKind} {tags : TagFilter} {place : Place}
    (hplace : ∀ source, place = .query source → ∃ e, Formed e source)
    (h : Draft.finish resolver kind tags place name = .ok q) (hq : q.program.WellFormed) :
    q.kind = some kind ∧ ∀ source, place = .query source → source.program.KeepsKinds q.program := by
  obtain ⟨⟨program, scope⟩, hresolve, -⟩ := bind_eq_ok_iff.mp h
  rw [finish_eq hplace hresolve] at h
  split_ifs at h
  cases h
  refine ⟨kind_extend_selection hq, ?_⟩
  rintro source rfl
  rcases Place.eq_of_resolve_eq_ok hresolve with ⟨_, ⟨⟩, -, ⟨⟩⟩ | ⟨region, hregion, -⟩
  · exact keepsKinds_extend _ _
  · cases hregion

end Formed

/-- **The kind of what a task gives.** It is as the task has it, and the program keeps the kinds
that the operands bring along. -/
theorem Task.kind_of_perform {task : Task} {name : SetName} {q : Query}
    (hoperands : ∀ o ∈ task.operands, ∃ e, Formed e o) (h : task.perform name = .ok q) :
    q.kind = task.kind ∧ ∀ o ∈ task.operands, o.program.KeepsKinds q.program := by
  cases task with
  | select kind tags place resolver =>
      obtain ⟨e, he⟩ := Task.exists_formed hoperands h
      have hplace : ∀ source, place = .query source → ∃ e, Formed e source := by
        rintro source rfl
        exact hoperands source List.mem_cons_self
      obtain ⟨hkind, hkeeps⟩ := Formed.kind_finish hplace h he.wellFormed
      refine ⟨hkind, fun o ho => ?_⟩
      cases place with
      | query source =>
          obtain rfl := List.mem_singleton.mp ho
          exact hkeeps o rfl
      | polygon | bbox | outline | region | inline => exact absurd ho List.not_mem_nil
  | combine operator a b =>
      obtain ⟨e, he⟩ := hoperands a List.mem_cons_self
      obtain ⟨f, hf⟩ := hoperands b (List.mem_cons_of_mem a List.mem_cons_self)
      obtain ⟨hkind, hleft, hright⟩ := he.kind_combine hf h
      exact ⟨hkind, List.forall_mem_cons.mpr ⟨hleft, List.forall_mem_singleton.mpr hright⟩⟩
  | recurse direction source =>
      obtain ⟨e, he⟩ := hoperands source List.mem_cons_self
      obtain ⟨hkind, hkeeps⟩ := he.kind_follow h
      exact ⟨hkind, List.forall_mem_singleton.mpr hkeeps⟩

/-! ### Calls -/

/-- The kind of a fold over several queries is the fold of their kinds. So a union of many queries
has a known kind exactly if all of them have the same one. -/
theorem Formed.kind_foldCombine {operator : BinaryOperator} {e : Expression} {a q : Query}
    {supply rest : NameSupply} (others : List Query) (hothers : ∀ o ∈ others, ∃ f, Formed f o)
    (ha : Formed e a)
    (h : Fresh.runOn (others.foldlM (Query.combineFresh operator) a) supply = (.ok q, rest)) :
    q.kind = others.foldl (fun kind other => operator.kind kind other.kind) a.kind := by
  induction others generalizing e a supply with
  | nil =>
      cases h
      rfl
  | cons b others ih =>
      obtain ⟨combined, middle, hstep, h⟩ := Fresh.runOn_bind_eq_ok_iff.mp h
      have hcombine : Query.combine operator a b supply.name = .ok combined :=
        congrArg Prod.fst hstep
      obtain ⟨⟨f, hf⟩, hrest⟩ := List.forall_mem_cons.mp hothers
      obtain ⟨hkind, -, -⟩ := ha.kind_combine hf hcombine
      rw [ih hrest (ha.combine hf hcombine) h, hkind, List.foldl_cons]

/-- The task of a call gives what the call gives. What remains are folds, which are no single
tasks. -/
theorem Call.kind_of_task {call : Call} {task : Task} (h : call.task? = some (.ok task)) :
    task.kind = call.kind := by
  cases call with
  | select kind tags text? place? resolver =>
      obtain ⟨filter, -, h⟩ := bind_eq_ok_iff.mp (Option.some.inj h)
      cases place? with
      | none => cases h
      | some place =>
          cases h
          rfl
  | recurseMarker marker source =>
      obtain ⟨direction, -, h⟩ := bind_eq_ok_iff.mp (Option.some.inj h)
      cases h
      rfl
  | combineAs | combine | recurseAs | recurse =>
      cases h
      rfl
  | combineAll => cases h
  | negate => cases h

/-- A call gives a query of its kind, the kind being computed from the operands of the call
alone. -/
theorem Call.kind_eq {call : Call} {supply rest : NameSupply} {q : Query}
    (hoperands : ∀ o ∈ call.operands, ∃ e, Formed e o)
    (h : call.run.runOn supply = (.ok q, rest)) : q.kind = call.kind := by
  cases htask : call.task? with
  | none =>
      obtain ⟨operator, first, others, rfl⟩ := eq_combineAll_of_task?_eq_none htask
      obtain ⟨⟨e, he⟩, hothers⟩ := List.forall_mem_cons.mp hoperands
      exact he.kind_foldCombine others hothers h
  | some checked =>
      cases checked with
      | error cause =>
          rw [runOn_of_error htask] at h
          cases h
      | ok task =>
          rw [runOn_of_task htask] at h
          obtain ⟨name, hname⟩ := Task.exists_perform_of_runOn h
          rw [← (operands_and_region?_of_task htask).1] at hoperands
          rw [← kind_of_task htask]
          exact (Task.kind_of_perform hoperands hname).1

/-- A call keeps the kinds of its operands. In particular it keeps the kinds of all selections and
operations inside of them, since the search for a kind visits only these. -/
theorem Call.keepsKinds {call : Call} {supply rest : NameSupply} {q : Query}
    (hoperands : ∀ o ∈ call.operands, ∃ e, Formed e o)
    (h : call.run.runOn supply = (.ok q, rest)) :
    ∀ o ∈ call.operands, o.program.KeepsKinds q.program :=
  Call.of_operands (R := fun o q => o.program.KeepsKinds q.program) (fun _ => .refl _)
    (fun _ _ _ => .trans) (fun _ _ _ ho hperform => (Task.kind_of_perform ho hperform).2)
    hoperands h

/-- **Kinds are compositional and stable.** The kind of a query follows from the call that gave it
and the kinds of the operands: a union has their common kind, if they have one, a difference the
kind of the first, an intersection and a selection the kind that they are made for, and a recursion
none. And whatever the operands bring along as a selection or an operation has in the new program
the kind that it had in theirs, although areas may have been widened. -/
theorem Call.kind_of_run {call : Call} {supply rest : NameSupply} {q : Query}
    (hoperands : ∀ o ∈ call.operands, o.Reachable)
    (h : call.run.runOn supply = (.ok q, rest)) :
    q.kind = call.kind ∧
      ∀ o ∈ call.operands, ∀ n,
        o.program.binding? n = some .selection ∨ o.program.binding? n = some .operation →
        q.program.kindOf n = o.program.kindOf n := by
  have hoperandsFormed : ∀ o ∈ call.operands, ∃ e, Formed e o :=
    fun o ho => (hoperands o ho).exists_formed
  obtain ⟨f, hf⟩ := Call.exists_formed hoperandsFormed h
  have hkeeps := keepsKinds hoperandsFormed h
  refine ⟨kind_eq hoperandsFormed h, fun o ho n hn => ?_⟩
  have hformed := (hoperands o ho).wellFormed
  rw [binding?_eq_some_iff hformed.nodup, binding?_eq_some_iff hformed.nodup] at hn
  exact (hkeeps o ho).kindOf_eq hformed hf.wellFormed hn

/-- The nodes and the ways of the park are mixed, and so the park itself is widened; the selections
stay what they are. -/
theorem Call.kind_of_run_park :
    Park.both.kind = none ∧ Park.both.program.kindOf ⟨"park"⟩ = some .any ∧
      Park.both.program.kindOf ⟨"nodes"⟩ = some .node := by
  let call : Call := .combineAs .union Park.nodes Park.ways "both"
  have hoperands : ∀ o ∈ call.operands, o.Reachable := by
    intro o ho
    rcases List.mem_pair.mp ho with rfl | rfl
    exacts [⟨_, Park.built_nodes⟩, ⟨_, Park.built_ways⟩]
  have hrun : call.run.runOn .initial = (.ok Park.both, .initial) := rfl
  obtain ⟨hkind, hstable⟩ := Call.kind_of_run hoperands hrun
  exact ⟨hkind, rfl, hstable Park.nodes List.mem_cons_self ⟨"nodes"⟩ (Or.inl rfl)⟩

end Overpass
