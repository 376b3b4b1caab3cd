import Overpass.Proofs.Query.Formed
import Overpass.Proofs.Query.Refusal
import Overpass.Proofs.SetName.Taking

/-!
# Calls and runs

A caller works with the algebra through calls, each of which may take generated names and ends in a
query or in a refusal. Every call but the fold over several queries comes down to the same three
steps: its arguments are checked, its name is read or generated, and a task is performed under that
name. A run is a sequence of calls, each of which takes its operands from the queries built so far.

## Main Definitions

* `TagInput`: the forms in which tags are given
* `Task`, `Task.perform`: what a call does once its arguments are read and its name is known
* `Call`, `Call.run`: the calls of the algebra
* `Session`, `Run`: the queries and the supply that a caller holds, and sequences of calls

## Main Statements

* `Call.runOn_of_error`, `Call.runOn_of_task`: the steps of a call
* `Task.exists_formed`: a task on built queries gives a built query
* `Call.isRecorded`: the names that a call takes can be recorded
* `Call.next_le`, `Run.next_le`: a supply only moves on
* `Call.of_tasks`, `Call.of_operands`: what tasks preserve, and what they keep of their operands,
  calls do too
-/

namespace Overpass

open Program

/-! ### Tasks -/

/-- What is done once the arguments are read. A task still has no name: the name is given, or
generated when the task is performed. -/
inductive Task where
  | select (kind : ElementKind) (tags : TagFilter) (place : Place) (resolver : Resolver)
  | combine (operator : BinaryOperator) (a b : Query)
  | recurse (direction : Direction) (source : Query)

namespace Task

/-- Performs a task under a name. -/
def perform : Task → SetName → Except QueryError Query
  | select kind tags place resolver, name => Draft.finish resolver kind tags place name
  | combine operator a b, name => Query.combine operator a b name
  | recurse direction source, name => Query.follow direction source name

/-- The queries that a task reads, in the order in which it refers to them. -/
def operands : Task → List Query
  | select _ _ (.query source) _ => [source]
  | select _ _ _ _ => []
  | combine _ a b => [a, b]
  | recurse _ source => [source]

/-- The region that a task brings in, if its place comes to one. -/
def region? : Task → Option Region
  | select _ _ place resolver => place.region? resolver
  | _ => none

/-- Performs a task under the name that a caller gives, or under a generated one. -/
def runOn (task : Task) (text? : Option String) (supply : NameSupply) :
    Except QueryError Query × NameSupply :=
  match text? with
  | some text => (SetName.parse text >>= task.perform, supply)
  | none => (task.perform supply.name, supply.advance)

/-- What a task gives, it gives under some name: the one that it is given or the next of the supply.
Where only the form of the result counts, the name may be forgotten. -/
theorem exists_perform_of_runOn {task : Task} {text? : Option String} {supply rest : NameSupply}
    {q : Query} (h : task.runOn text? supply = (.ok q, rest)) :
    ∃ name, task.perform name = .ok q := by
  cases text? with
  | none => exact ⟨supply.name, congrArg Prod.fst h⟩
  | some text =>
      obtain ⟨name, -, hname⟩ := bind_eq_ok_iff.mp (congrArg Prod.fst h)
      exact ⟨name, hname⟩

/-- A task on built queries gives a built query. So everything that is known of the normal form is
known of the result. -/
theorem exists_formed {task : Task} {name : SetName} {q : Query}
    (hoperands : ∀ o ∈ task.operands, ∃ e, Formed e o) (h : task.perform name = .ok q) :
    ∃ e, Formed e q := by
  cases task with
  | select kind tags place resolver =>
      obtain ⟨⟨program, scope⟩, hresolve, -⟩ := bind_eq_ok_iff.mp h
      rcases Place.eq_of_resolve_eq_ok hresolve with ⟨source, rfl, -⟩ | ⟨region, hregion, -⟩
      · obtain ⟨e, he⟩ := hoperands source List.mem_cons_self
        exact ⟨_, he.finish_within h⟩
      · exact ⟨_, Formed.finish_inRegion hregion h⟩
  | combine operator a b =>
      obtain ⟨e, he⟩ := hoperands a List.mem_cons_self
      obtain ⟨f, hf⟩ := hoperands b (List.mem_cons_of_mem a List.mem_cons_self)
      exact ⟨_, he.combine hf h⟩
  | recurse direction source =>
      obtain ⟨e, he⟩ := hoperands source List.mem_cons_self
      exact ⟨_, he.follow h⟩

end Task

/-! ### Calls -/

/-- The forms in which a caller gives tags: a filter that was made before, tokens, pairs, or a
single text. -/
inductive TagInput where
  /-- Tags that were read before. -/
  | filter (given : TagFilter)
  /-- Comma-separated tokens. -/
  | text (given : String)
  | tokens (given : List String)
  | pairs (given : List (String × Option String))

/-- The tags that a caller gives. -/
def TagInput.read : TagInput → Except QueryError TagFilter
  | filter given => .ok given
  | text given => TagFilter.ofText given
  | tokens given => TagFilter.ofTokens given
  | pairs given => TagFilter.ofPairs given

/-- Tags are refused as malformed, and for nothing else, whether they are given as tokens, pairs or
text. -/
theorem TagInput.exists_tagSyntax_of_read {tags : TagInput} {cause : QueryError}
    (h : tags.read = .error cause) : ∃ token, cause = .tagSyntax token := by
  cases tags with
  | filter given => cases h
  | text given => exact TagFilter.exists_tagSyntax_of_ofText h
  | tokens given =>
      obtain ⟨token, -, hcause⟩ := TagFilter.exists_tagSyntax_of_ofTokens h
      exact ⟨token, hcause⟩
  | pairs given =>
      obtain ⟨pair, -, hcause⟩ := TagFilter.exists_tagSyntax_of_ofPairs h
      exact ⟨_, hcause⟩

/-- The calls of the algebra, with their arguments as a caller gives them, nothing of which was
checked yet. -/
inductive Call where
  /-- A selection, built from its parts. -/
  | select (kind : ElementKind) (tags : TagInput) (text? : Option String) (place? : Option Place)
    (resolver : Resolver)
  /-- A union, difference or intersection under a caller's name. -/
  | combineAs (operator : BinaryOperator) (a b : Query) (text : String)
  /-- A union, difference or intersection under a generated name. -/
  | combine (operator : BinaryOperator) (a b : Query)
  /-- A recursion under a caller's name. -/
  | recurseAs (direction : Direction) (source : Query) (text : String)
  /-- A recursion under a generated name. -/
  | recurse (direction : Direction) (source : Query)
  /-- A recursion in the direction that a marker names. -/
  | recurseMarker (marker : String) (source : Query)
  /-- A union or difference of several queries from the left. -/
  | combineAll (operator : BinaryOperator) (first : Query) (others : List Query)
  | negate (source : Query)

namespace Call

/-- The call as a computation. -/
def run : Call → Fresh Query
  | select kind tags text? place? resolver =>
    (Draft.mk kind tags.read (text?.map SetName.parse) place?).build resolver
  | combineAs operator a b text => Fresh.lift (Query.combineAs operator a b text)
  | combine operator a b => Query.combineFresh operator a b
  | recurseAs direction source text => Fresh.lift (source.recurseAs direction text)
  | recurse direction source => source.recurse direction
  | recurseMarker marker source => source.recurseMarker marker
  | combineAll operator first others => others.foldlM (Query.combineFresh operator) first
  | negate source => Fresh.lift source.negate

/-- The queries that a call is made with. -/
def operands : Call → List Query
  | select _ _ _ (some (.query source)) _ => [source]
  | select _ _ _ _ _ => []
  | combineAs _ a b _ | combine _ a b => [a, b]
  | recurseAs _ source _ | recurse _ source | recurseMarker _ source | negate source => [source]
  | combineAll _ first others => first :: others

/-- The name that a caller gives, as it is given. -/
def text? : Call → Option String
  | select _ _ text? _ _ => text?
  | combineAs _ _ _ text | recurseAs _ _ text => some text
  | combine _ _ _ | recurse _ _ | recurseMarker _ _ | combineAll _ _ _ | negate _ => none

/-- The region that a call brings in. -/
def region? : Call → Option Region
  | select _ _ _ (some place) resolver => place.region? resolver
  | _ => none

/-- The task of a call, unless its arguments are refused. A fold over several queries has none of
its own. -/
def task? : Call → Option (Except QueryError Task)
  | select kind tags _ place? resolver =>
    some do
      let filter ← tags.read
      match place? with
      | none => .error .placeMissing
      | some place => return .select kind filter place resolver
  | combineAs operator a b _ | combine operator a b => some (.ok (.combine operator a b))
  | recurseAs direction source _ | recurse direction source =>
    some (.ok (.recurse direction source))
  | recurseMarker marker source =>
    some do
      let direction ← Direction.parse marker
      return .recurse direction source
  | combineAll _ _ _ => none
  | negate _ => some (.error .unaryNegation)

variable {call : Call} {task : Task} {cause : QueryError} {supply : NameSupply}

/-- The folds over several queries are the calls that have no task of their own. -/
theorem eq_combineAll_of_task?_eq_none (h : call.task? = none) :
    ∃ operator first others, call = combineAll operator first others := by
  cases call with
  | combineAll operator first others => exact ⟨operator, first, others, rfl⟩
  | _ => simp [task?] at h

/-- A task reads the operands of its call and brings in its region. What a call refers to can
therefore be told from its arguments, before they are checked. -/
theorem operands_and_region?_of_task (h : call.task? = some (.ok task)) :
    task.operands = call.operands ∧ task.region? = call.region? := by
  cases call with
  | select kind tags text? place? resolver =>
      obtain ⟨filter, -, h⟩ := bind_eq_ok_iff.mp (Option.some.inj h)
      cases place? with
      | none => cases h
      | some place =>
          cases h
          cases place <;> exact ⟨rfl, rfl⟩
  | recurseMarker marker source =>
      obtain ⟨direction, -, h⟩ := bind_eq_ok_iff.mp (Option.some.inj h)
      cases h
      exact ⟨rfl, rfl⟩
  | combineAs | combine | recurseAs | recurse =>
      cases h
      exact ⟨rfl, rfl⟩
  | combineAll => cases h
  | negate => cases h

/-- A call whose arguments are refused takes no name, so the next call gets the name that this one
would have had. -/
theorem runOn_of_error (h : call.task? = some (.error cause)) :
    call.run.runOn supply = (.error cause, supply) := by
  cases call with
  | select kind tags text? place? resolver =>
      have h := Option.some.inj h
      rw [run, Draft.build, Fresh.runOn_bind, Fresh.runOn_lift]
      cases hread : tags.read with
      | error refusal =>
          rw [hread] at h
          cases h
          rfl
      | ok filter =>
          rw [hread] at h
          cases place? with
          | none =>
              cases h
              rfl
          | some place => cases h
  | recurseMarker marker source =>
      have h := Option.some.inj h
      rw [run, Query.recurseMarker, Fresh.runOn_bind, Fresh.runOn_lift]
      cases hparse : Direction.parse marker with
      | error refusal =>
          rw [hparse] at h
          cases h
          rfl
      | ok direction =>
          rw [hparse] at h
          cases h
  | negate source =>
      cases h
      rfl
  | combineAs | combine | recurseAs | recurse => cases h
  | combineAll => cases h

/-- A call whose arguments are accepted performs its task. Together with the lemma before, this is
all that is used of how calls are run. -/
theorem runOn_of_task (h : call.task? = some (.ok task)) :
    call.run.runOn supply = task.runOn call.text? supply := by
  cases call with
  | select kind tags text? place? resolver =>
      obtain ⟨filter, hread, h⟩ := bind_eq_ok_iff.mp (Option.some.inj h)
      rw [run, Draft.build, Fresh.runOn_bind, Fresh.runOn_lift, hread]
      cases place? with
      | none => cases h
      | some place =>
          cases h
          cases text? with
          | none => rfl
          | some text =>
              show (Fresh.lift (SetName.parse text) >>= fun name => _).runOn supply = _
              rw [Fresh.runOn_bind, Fresh.runOn_lift]
              show _ = (SetName.parse text >>= _, supply)
              cases SetName.parse text <;> rfl
  | recurseMarker marker source =>
      obtain ⟨direction, hparse, h⟩ := bind_eq_ok_iff.mp (Option.some.inj h)
      cases h
      rw [run, Query.recurseMarker, Fresh.runOn_bind, Fresh.runOn_lift, hparse]
      rfl
  | combineAs | combine | recurseAs | recurse =>
      cases h
      rfl
  | combineAll => cases h
  | negate => cases h

end Call

/-! ### Runs -/

/-- What a caller holds between two calls: the supply of names, and all queries that were built so
far. -/
structure Session where
  built : List Query
  supply : NameSupply

/-- A call and what became of it, as a caller sees both. -/
structure Event where
  call : Call
  outcome : Except QueryError Query

namespace Session

/-- What becomes of a call in a session: a query, or the reason for which it is refused. -/
def outcome (session : Session) (call : Call) : Except QueryError Query :=
  (call.run.runOn session.supply).1

/-- What a caller holds after a call: a query that was built is kept, and names that were taken are
gone in any case. -/
def after (session : Session) (call : Call) : Session where
  built := (session.outcome call).toOption.toList ++ session.built
  supply := (call.run.runOn session.supply).2

/-- The queries that a caller holds after a call are those from before and what the call gave. -/
theorem mem_built_after {session : Session} {call : Call} {q : Query} :
    q ∈ (session.after call).built ↔
      call.run.runOn session.supply = (.ok q, (session.after call).supply) ∨ q ∈ session.built := by
  rw [after, List.mem_append, Option.mem_toList, outcome]
  rcases call.run.runOn session.supply with ⟨_ | made, rest⟩
  · simp [Except.toOption]
  · simp [Except.toOption]

end Session

/-- A sequence of calls, each with operands among the queries built before. Calls that are refused
are part of a run, and may have taken names. -/
inductive Run : Session → List Event → Session → Prop
  | nil {session : Session} : Run session [] session
  | cons {first last : Session} {call : Call} {events : List Event} :
      (∀ q ∈ call.operands, q ∈ first.built) → Run (first.after call) events last →
      Run first (⟨call, first.outcome call⟩ :: events) last

/-! ### The supply in a run -/

/-- A combination without a given name takes the next name of the supply, also if it is refused. -/
theorem Query.runOn_combineFresh (operator : BinaryOperator) (a b : Query) (supply : NameSupply) :
    (Query.combineFresh operator a b).runOn supply =
      (Query.combine operator a b supply.name, supply.advance) := rfl

/-- The steps of a fold over several queries: the first of them is combined under the next name, and
the rest is combined with the result unless this was refused. -/
theorem Query.runOn_foldCombine_cons (operator : BinaryOperator) (a b : Query) (others : List Query)
    (supply : NameSupply) :
    Fresh.runOn ((b :: others).foldlM (Query.combineFresh operator) a) supply =
      match Query.combine operator a b supply.name with
      | .ok combined =>
        Fresh.runOn (others.foldlM (Query.combineFresh operator) combined) supply.advance
      | .error cause => (.error cause, supply.advance) := by
  rw [List.foldlM_cons, Fresh.runOn_bind, runOn_combineFresh]
  cases Query.combine operator a b supply.name <;> rfl

/-! Calls take names from the supply, and do nothing else with it. -/

/-- A draft takes its name by way of the supply, and does nothing else with it. -/
theorem Draft.isRecorded_build (draft : Draft) (resolver : Resolver) :
    (draft.build resolver).IsRecorded := by
  obtain ⟨kind, tags, name, place⟩ := draft
  refine (Fresh.isRecorded_lift tags).bind fun filter => ?_
  cases place with
  | none => exact Fresh.isRecorded_lift (.error .placeMissing)
  | some place =>
      refine Fresh.IsRecorded.bind ?_ fun name => Fresh.isRecorded_lift _
      cases name with
      | none => exact Fresh.isRecorded_name
      | some given => exact Fresh.isRecorded_lift given

theorem Query.isRecorded_combineFresh (operator : BinaryOperator) (a b : Query) :
    (Query.combineFresh operator a b).IsRecorded :=
  Fresh.isRecorded_name.bind fun _ => Fresh.isRecorded_lift _

theorem Query.isRecorded_recurse (direction : Direction) (source : Query) :
    (source.recurse direction).IsRecorded :=
  Fresh.isRecorded_name.bind fun _ => Fresh.isRecorded_lift _

/-- A fold takes the names of its steps, up to the first step that is refused. -/
theorem Query.isRecorded_foldCombine (operator : BinaryOperator) (a : Query)
    (others : List Query) : Fresh.IsRecorded (others.foldlM (Query.combineFresh operator) a) := by
  induction others generalizing a with
  | nil => exact Fresh.isRecorded_lift (.ok a)
  | cons b others ih =>
      rw [List.foldlM_cons]
      exact (isRecorded_combineFresh operator a b).bind ih

/-- The names that a call takes can be recorded, one after the other. So names cannot be taken in
any other way than from the supply. -/
theorem Call.isRecorded (call : Call) : call.run.IsRecorded := by
  cases call with
  | select kind tags text? place? resolver => exact Draft.isRecorded_build _ resolver
  | combineAs operator a b text => exact Fresh.isRecorded_lift _
  | combine operator a b => exact Query.isRecorded_combineFresh operator a b
  | recurseAs direction source text => exact Fresh.isRecorded_lift _
  | recurse direction source => exact source.isRecorded_recurse direction
  | recurseMarker marker source =>
      exact (Fresh.isRecorded_lift _).bind fun direction => source.isRecorded_recurse direction
  | combineAll operator first others => exact Query.isRecorded_foldCombine operator first others
  | negate source => exact Fresh.isRecorded_lift _

theorem Query.next_le_foldCombine_cons (operator : BinaryOperator) (a b : Query)
    (others : List Query) (supply : NameSupply) :
    supply.advance.next ≤
      (Fresh.runOn ((b :: others).foldlM (Query.combineFresh operator) a) supply).2.next := by
  rw [runOn_foldCombine_cons]
  cases Query.combine operator a b supply.name with
  | error cause => exact Nat.le_refl _
  | ok combined => exact (isRecorded_foldCombine operator combined others).next_le supply.advance

/-- A supply only moves on, whatever becomes of the call. -/
theorem Call.next_le (call : Call) (supply : NameSupply) :
    supply.next ≤ (call.run.runOn supply).2.next :=
  call.isRecorded.next_le supply

/-- Over a run the supply moves on as well. So names that were taken earlier in a run are smaller
than those that are taken later. -/
theorem Run.next_le {first last : Session} {events : List Event} (h : Run first events last) :
    first.supply.next ≤ last.supply.next := by
  induction h with
  | nil => exact Nat.le_refl _
  | @cons first last call events _ _ ih => exact (call.next_le first.supply).trans ih

/-! ### What tasks preserve -/

section Preserved

variable {P : Query → Prop} {supply rest : NameSupply} {q : Query}

/-- A fold over several queries is a sequence of combinations under generated names. What holds of
each of them, and is handed on from one to the next, holds of the whole. -/
theorem Query.of_tasks_foldCombine {operator : BinaryOperator} {others : List Query} {a : Query}
    (hothers : ∀ o ∈ a :: others, P o)
    (htasks : ∀ (b c : Query) (name : SetName) (q : Query), P b → P c → supply.Gives rest name →
      Query.combine operator b c name = .ok q → P q)
    (h : Fresh.runOn (others.foldlM (Query.combineFresh operator) a) supply = (.ok q, rest)) :
    P q := by
  induction others generalizing a supply with
  | nil =>
      cases h
      exact hothers q List.mem_cons_self
  | cons b others ih =>
      obtain ⟨ha, hb, hothers⟩ : P a ∧ P b ∧ ∀ o ∈ others, P o := by
        simpa only [List.forall_mem_cons] using hothers
      have hnext := next_le_foldCombine_cons operator a b others supply
      rw [h] at hnext
      obtain ⟨combined, middle, hcombined, h⟩ := Fresh.runOn_bind_eq_ok_iff.mp h
      obtain ⟨hcombine, rfl⟩ := Prod.mk.inj hcombined
      have hgives : supply.Gives rest supply.name := ⟨supply, Nat.le_refl _, hnext, rfl⟩
      refine ih (List.forall_mem_cons.mpr ⟨htasks a b _ combined ha hb hgives hcombine, hothers⟩)
        (fun c d name q hc hd hname => ?_) h
      exact htasks c d name q hc hd (hname.mono (Nat.le_succ _) (Nat.le_refl _))

/-- **What tasks preserve, calls preserve.** A call that succeeds performs tasks under names that
are given or generated meanwhile, on its operands and on what it made of them before. -/
theorem Call.of_tasks {call : Call} (hoperands : ∀ o ∈ call.operands, P o)
    (htasks : ∀ (task : Task) (name : SetName) (q : Query), (∀ o ∈ task.operands, P o) →
      (∀ region, task.region? = some region → call.region? = some region) →
      (∃ text, SetName.parse text = .ok name) ∨ supply.Gives rest name →
      task.perform name = .ok q → P q)
    (h : call.run.runOn supply = (.ok q, rest)) : P q := by
  cases htask : call.task? with
  | none =>
      obtain ⟨operator, first, others, rfl⟩ := eq_combineAll_of_task?_eq_none htask
      refine Query.of_tasks_foldCombine hoperands (fun b c name q hb hc hname h => ?_) h
      exact htasks (.combine operator b c) name q
        (List.forall_mem_cons.mpr ⟨hb, List.forall_mem_singleton.mpr hc⟩)
        (fun _ hregion => nomatch hregion) (Or.inr hname) h
  | some checked =>
      cases checked with
      | error cause =>
          rw [runOn_of_error htask] at h
          cases h
      | ok task =>
          obtain ⟨hsame, hsameregion⟩ := operands_and_region?_of_task htask
          rw [runOn_of_task htask] at h
          rw [← hsame] at hoperands
          rw [← hsameregion] at htasks
          cases htext : call.text? with
          | none =>
              rw [htext] at h
              obtain ⟨hperform, rfl⟩ := Prod.mk.inj h
              exact htasks task supply.name q hoperands (fun _ hregion => hregion)
                (Or.inr ⟨supply, Nat.le_refl _, Nat.lt_succ_self _, rfl⟩) hperform
          | some text =>
              rw [htext] at h
              obtain ⟨name, hparse, hperform⟩ := bind_eq_ok_iff.mp (congrArg Prod.fst h)
              exact htasks task name q hoperands (fun _ hregion => hregion)
                (Or.inl ⟨text, hparse⟩) hperform

/-- A call on built queries gives a built query, whether it is a single task or a fold over several
of them. -/
theorem Call.exists_formed {call : Call} (hoperands : ∀ o ∈ call.operands, ∃ e, Formed e o)
    (h : call.run.runOn supply = (.ok q, rest)) : ∃ e, Formed e q :=
  Call.of_tasks (P := fun q => ∃ e, Formed e q) hoperands
    (fun _ _ _ ho _ _ hperform => Task.exists_formed ho hperform) h

variable {R : Query → Query → Prop}

/-- A fold keeps of its operands what combinations keep of theirs: what is combined first reaches
the result through all that is made in between. -/
theorem Query.of_operands_foldCombine (hrefl : ∀ q, R q q)
    (htrans : ∀ a b c, R a b → R b c → R a c) {operator : BinaryOperator}
    (hcombine : ∀ (a b : Query) (name : SetName) (q : Query), (∃ e, Formed e a) →
      (∃ e, Formed e b) → Query.combine operator a b name = .ok q → R a q ∧ R b q)
    {others : List Query} {a : Query} (hothers : ∀ o ∈ a :: others, ∃ e, Formed e o)
    (h : Fresh.runOn (others.foldlM (Query.combineFresh operator) a) supply = (.ok q, rest)) :
    ∀ o ∈ a :: others, R o q := by
  induction others generalizing a supply with
  | nil =>
      cases h
      exact List.forall_mem_singleton.mpr (hrefl _)
  | cons b others ih =>
      obtain ⟨combined, middle, hcombined, h⟩ := Fresh.runOn_bind_eq_ok_iff.mp h
      have hstep : Query.combine operator a b supply.name = .ok combined :=
        congrArg Prod.fst hcombined
      obtain ⟨⟨e, he⟩, ⟨f, hf⟩, hothers⟩ : (∃ e, Formed e a) ∧ (∃ f, Formed f b) ∧
          ∀ o ∈ others, ∃ g, Formed g o := by
        simpa only [List.forall_mem_cons] using hothers
      obtain ⟨hleft, hright⟩ := hcombine a b _ combined ⟨e, he⟩ ⟨f, hf⟩ hstep
      obtain ⟨hrest, hothers⟩ := List.forall_mem_cons.mp
        (ih (List.forall_mem_cons.mpr ⟨⟨_, he.combine hf hstep⟩, hothers⟩) h)
      simp only [List.forall_mem_cons]
      exact ⟨htrans _ _ _ hleft hrest, htrans _ _ _ hright hrest, hothers⟩

/-- **What tasks keep of their operands, calls keep.** The relation has to be reflexive and
transitive for the sake of folds, in which the result of one step is an operand of the next. -/
theorem Call.of_operands (hrefl : ∀ q, R q q) (htrans : ∀ a b c, R a b → R b c → R a c)
    (htasks : ∀ (task : Task) (name : SetName) (q : Query),
      (∀ o ∈ task.operands, ∃ e, Formed e o) → task.perform name = .ok q →
        ∀ o ∈ task.operands, R o q)
    {call : Call} (hoperands : ∀ o ∈ call.operands, ∃ e, Formed e o)
    (h : call.run.runOn supply = (.ok q, rest)) : ∀ o ∈ call.operands, R o q := by
  cases htask : call.task? with
  | none =>
      obtain ⟨operator, first, others, rfl⟩ := eq_combineAll_of_task?_eq_none htask
      refine Query.of_operands_foldCombine hrefl htrans (fun a b name q ha hb h => ?_) hoperands h
      have hpair := htasks (.combine operator a b) name q
        (List.forall_mem_cons.mpr ⟨ha, List.forall_mem_singleton.mpr hb⟩) h
      exact ⟨hpair a List.mem_cons_self, hpair b (List.mem_cons_of_mem a List.mem_cons_self)⟩
  | some checked =>
      cases checked with
      | error cause =>
          rw [runOn_of_error htask] at h
          cases h
      | ok task =>
          obtain ⟨hsame, -⟩ := operands_and_region?_of_task htask
          rw [runOn_of_task htask] at h
          obtain ⟨name, hperform⟩ := Task.exists_perform_of_runOn h
          rw [← hsame] at hoperands ⊢
          exact htasks task name q hoperands hperform

end Preserved

end Overpass
