import Overpass.Proofs.Query.Conflict

/-!
# The account of generated names

How many generated names a call takes can be told from its form: one under which it binds its
result, if it needs one, whether or not the result comes about; and in a fold over several queries
one for each step up to the first that is refused. A history is a run whose steps record the names
that they take. It may also have steps in which the caller takes a name by itself. Whatever the
steps and their outcomes, the recorded names are numbered one after another.

## Main Definitions

* `Query.RefusesAt`: which step of a fold is the first to be refused
* `Call.Account`: how many names a call takes, by its form
* `Step`, `History`: runs that record the names they take

## Main Statements

* `Call.account`: a call takes as many names as its form says
* `History.accounts`: names are numbered one after another, and every call takes as many as its form
  says
-/

namespace Overpass

/-! ### Folds -/

namespace Query

/-- Whether a fold over several queries is refused at a step, and why; the steps are counted from
one. The steps before it succeed. -/
inductive RefusesAt (operator : BinaryOperator) :
    Query → List Query → NameSupply → ℕ → QueryError → Prop
  | first {a b : Query} {others : List Query} {supply : NameSupply} {cause : QueryError} :
      combine operator a b supply.name = .error cause →
      RefusesAt operator a (b :: others) supply 1 cause
  | later {a b combined : Query} {others : List Query} {supply : NameSupply} {i : ℕ}
      {cause : QueryError} :
      combine operator a b supply.name = .ok combined →
      RefusesAt operator combined others supply.advance i cause →
      RefusesAt operator a (b :: others) supply (i + 1) cause

variable {operator : BinaryOperator} {a q : Query} {others : List Query} {supply rest : NameSupply}
  {cause : QueryError}

/-- A fold that is refused at a step has taken a name for that step and for each one before. -/
theorem RefusesAt.runOn_eq {i : ℕ} (h : RefusesAt operator a others supply i cause) :
    Fresh.runOn (others.foldlM (combineFresh operator) a) supply =
      (.error cause, ⟨supply.next + i⟩) := by
  induction h with
  | first hrefused => rw [runOn_foldCombine_cons, hrefused, NameSupply.advance]
  | @later a b combined others supply i cause hcombined _ ih =>
      have hnext : supply.advance.next + i = supply.next + (i + 1) := by
        rw [NameSupply.next_advance, Nat.add_right_comm, Nat.add_assoc]
      rw [runOn_foldCombine_cons, hcombined]
      show Fresh.runOn (others.foldlM (combineFresh operator) combined) supply.advance = _
      rw [ih, hnext]

/-- A fold is refused for one of its steps, the first that fails: all steps before it succeeded, and
took one name each. -/
theorem exists_refusesAt_of_runOn
    (h : Fresh.runOn (others.foldlM (combineFresh operator) a) supply = (.error cause, rest)) :
    ∃ i, RefusesAt operator a others supply i cause := by
  induction others generalizing a supply with
  | nil => cases h
  | cons b others ih =>
      rw [runOn_foldCombine_cons] at h
      cases hcombine : combine operator a b supply.name with
      | error refusal =>
          rw [hcombine] at h
          cases h
          exact ⟨1, .first hcombine⟩
      | ok combined =>
          rw [hcombine] at h
          obtain ⟨i, hi⟩ := ih h
          exact ⟨i + 1, .later hcombine hi⟩

/-- A fold that succeeds has taken a name for each of its steps, and thus one for each query after
the first. -/
theorem next_of_runOn_foldCombine
    (h : Fresh.runOn (others.foldlM (combineFresh operator) a) supply = (.ok q, rest)) :
    rest.next = supply.next + others.length := by
  induction others generalizing a supply with
  | nil =>
      cases h
      rfl
  | cons b others ih =>
      rw [runOn_foldCombine_cons] at h
      cases hcombine : combine operator a b supply.name with
      | error refusal =>
          rw [hcombine] at h
          cases h
      | ok combined =>
          rw [hcombine] at h
          rw [ih h, NameSupply.next_advance, List.length_cons, Nat.add_right_comm, Nat.add_assoc]

end Query

/-! ### Calls -/

namespace Call

variable {call : Call} {supply rest : NameSupply}

/-- How many names a call takes, by its form: by what it is given, and by where it is refused if it
is. -/
def Account (supply : NameSupply) (outcome : Except QueryError Query) (count : ℕ) : Call → Prop
  | combine _ _ _ | recurse _ _ => count = 1
  | combineAs _ _ _ _ | recurseAs _ _ _ | negate _ => count = 0
  | recurseMarker marker _ =>
    count ≤ 1 ∧ (count = 1 ↔ ∃ direction, Direction.parse marker = .ok direction)
  | select _ tags text? place? _ =>
    count ≤ 1 ∧ (count = 1 ↔
      (∃ filter, tags.read = .ok filter) ∧ (∃ place, place? = some place) ∧ text? = none)
  | combineAll operator first others =>
    (∀ q, outcome = .ok q → count = others.length) ∧
      (∀ i cause, Query.RefusesAt operator first others supply i cause → count = i) ∧
      ∀ cause, outcome = .error cause ↔ ∃ i, Query.RefusesAt operator first others supply i cause

section Recorded

variable {names : List SetName} {outcome : Except QueryError Query} {cause : QueryError}
  {task : Task}

/-- A call whose arguments are refused takes no name, since names are taken only once all arguments
were read. -/
theorem names_eq_of_error (htakes : Fresh.Takes call.run supply names outcome rest)
    (h : call.task? = some (.error cause)) : names = [] := by
  have hrun := htakes.runOn_eq
  rw [runOn_of_error h] at hrun
  cases hrun
  rw [htakes.eq_upTo, NameSupply.upTo_self]

/-- A call whose arguments are accepted takes a name if its caller gives none. -/
theorem names_eq_of_task (htakes : Fresh.Takes call.run supply names outcome rest)
    (h : call.task? = some (.ok task)) :
    names = if call.text? = none then [supply.name] else [] := by
  have hrun := htakes.runOn_eq
  rw [runOn_of_task h] at hrun
  cases htext : call.text? with
  | none =>
      rw [htext] at hrun
      cases hrun
      rw [htakes.eq_upTo, NameSupply.upTo_advance, if_pos rfl]
  | some text =>
      rw [htext] at hrun
      cases hrun
      rw [htakes.eq_upTo, NameSupply.upTo_self, if_neg (Option.some_ne_none text)]

/-- **A call takes as many names as its form says.** This is the account of a single call; the
account of a history adds up those of its calls. -/
theorem account (htakes : Fresh.Takes call.run supply names outcome rest) :
    call.Account supply outcome names.length := by
  cases call with
  | combine operator a b => exact congrArg List.length (names_eq_of_task htakes rfl)
  | recurse direction source => exact congrArg List.length (names_eq_of_task htakes rfl)
  | combineAs operator a b text => exact congrArg List.length (names_eq_of_task htakes rfl)
  | recurseAs direction source text => exact congrArg List.length (names_eq_of_task htakes rfl)
  | negate source => exact congrArg List.length (names_eq_of_error htakes rfl)
  | recurseMarker marker source =>
      cases hparse : Direction.parse marker with
      | error refusal =>
          have htask : (recurseMarker marker source).task? = some (.error refusal) := by
            rw [task?, hparse]
            rfl
          simp [Account, names_eq_of_error htakes htask, hparse]
      | ok direction =>
          have htask : (recurseMarker marker source).task? =
              some (.ok (.recurse direction source)) := by
            rw [task?, hparse]
            rfl
          simp [Account, names_eq_of_task htakes htask, hparse, text?]
  | select kind tags text? place? resolver =>
      have htask : (select kind tags text? place? resolver).task? =
          some (tags.read >>= fun filter => place?.elim (.error .placeMissing) fun place =>
            .ok (.select kind filter place resolver)) := by
        cases place? <;> rfl
      cases hread : tags.read with
      | error refusal =>
          rw [hread] at htask
          simp [Account, names_eq_of_error htakes htask, hread]
      | ok filter =>
          rw [hread] at htask
          cases place? with
          | none => simp [Account, names_eq_of_error htakes htask]
          | some place =>
              cases text? <;> simp [Account, names_eq_of_task htakes htask, hread, Call.text?]
  | combineAll operator first others =>
      have hrun : Fresh.runOn (others.foldlM (Query.combineFresh operator) first) supply =
        (outcome, rest) := htakes.runOn_eq
      rw [Account, htakes.eq_upTo, NameSupply.length_upTo]
      refine ⟨?_, fun i cause h => ?_, fun cause => ⟨?_, ?_⟩⟩
      · rintro q rfl
        rw [Query.next_of_runOn_foldCombine hrun, Nat.add_sub_cancel_left]
      · rw [h.runOn_eq] at hrun
        cases hrun
        exact Nat.add_sub_cancel_left _ i
      · rintro rfl
        exact Query.exists_refusesAt_of_runOn hrun
      · rintro ⟨i, h⟩
        rw [h.runOn_eq] at hrun
        exact (congrArg Prod.fst hrun).symm

end Recorded

end Call

/-! ### Histories -/

/-- A step of a history: a call, with the names that it took, or a name that the caller took without
a call. -/
inductive Step where
  /-- A call, with the supply before it and the names that it took. -/
  | call (event : Event) (supply : NameSupply) (names : List SetName)
  /-- A name that the caller takes. -/
  | name (name : SetName)

namespace Step

/-- The names that a step took. -/
def names : Step → List SetName
  | call _ _ names => names
  | name taken => [taken]

/-- The names that steps took, one after another, whether or not a query came of it. -/
def taken (steps : List Step) : List SetName := steps.flatMap names

/-- The call of a step and what became of it. -/
def event? : Step → Option Event
  | call event _ _ => some event
  | name _ => none

end Step

/-- A run that records the names it takes. Calls have operands among the queries built before, and
between calls the caller may take names as well. -/
inductive History : Session → List Step → Session → Prop
  | nil {session : Session} : History session [] session
  | call {first last : Session} {call : Call} {names : List SetName} {steps : List Step} :
      (∀ q ∈ call.operands, q ∈ first.built) →
      Fresh.Takes call.run first.supply names (first.outcome call) (first.after call).supply →
      History (first.after call) steps last →
      History first (.call ⟨call, first.outcome call⟩ first.supply names :: steps) last
  | name {first last : Session} {rest : NameSupply} {name : SetName} {steps : List Step} :
      Fresh.Takes Fresh.name first.supply [name] (.ok name) rest →
      History ⟨first.built, rest⟩ steps last →
      History first (.name name :: steps) last

/-- The step in which a call is made. -/
def Session.step (session : Session) (call : Call) : Step :=
  .call ⟨call, session.outcome call⟩ session.supply
    (session.supply.upTo (session.after call).supply)

/-- A call that is made before a history gives a longer one. -/
theorem History.step {first last : Session} {call : Call} {steps : List Step}
    (hoperands : ∀ q ∈ call.operands, q ∈ first.built)
    (h : History (first.after call) steps last) : History first (first.step call :: steps) last :=
  .call hoperands (call.isRecorded.takes first.supply) h

/-- Every run has a history, which records beside each event the supply and the names that were
taken. -/
theorem Run.exists_history {first last : Session} {events : List Event}
    (hrun : Run first events last) :
    ∃ steps, History first steps last ∧ steps.filterMap Step.event? = events := by
  induction hrun with
  | nil => exact ⟨[], .nil, rfl⟩
  | @cons first last call events hoperands _ ih =>
      obtain ⟨steps, hsteps, hevents⟩ := ih
      refine ⟨first.step call :: steps, hsteps.step hoperands, ?_⟩
      exact congrArg (List.cons _) hevents

namespace History

variable {first last : Session} {steps : List Step}

theorem next_le (h : History first steps last) : first.supply.next ≤ last.supply.next := by
  induction h with
  | nil => exact Nat.le_refl _
  | call _ htakes _ ih => exact htakes.next_le.trans ih
  | name htakes _ ih => exact htakes.next_le.trans ih

/-- The names taken in a history are those that the supply gave between its beginning and its end,
one after the other and without gaps. -/
theorem taken_eq (h : History first steps last) :
    Step.taken steps = first.supply.upTo last.supply := by
  induction h with
  | nil => rw [NameSupply.upTo_self, Step.taken, List.flatMap_nil]
  | @call first last call names steps _ htakes hrest ih =>
      show names ++ Step.taken steps = first.supply.upTo last.supply
      rw [ih, htakes.eq_upTo, NameSupply.upTo_append_upTo htakes.next_le hrest.next_le]
  | @name first last rest name steps htakes hrest ih =>
      show [name] ++ Step.taken steps = first.supply.upTo last.supply
      rw [ih, htakes.eq_upTo, NameSupply.upTo_append_upTo htakes.next_le hrest.next_le]

/-- The calls of a history are recorded: what is noted beside a call is what running it takes. -/
theorem takes_of_mem (h : History first steps last) {event : Event} {supply : NameSupply}
    {names : List SetName} (hmem : Step.call event supply names ∈ steps) :
    ∃ rest, Fresh.Takes event.call.run supply names event.outcome rest := by
  induction h with
  | nil => exact absurd hmem List.not_mem_nil
  | @call first last call taken steps _ htakes _ ih =>
      rcases List.mem_cons.mp hmem with heq | hmem
      · cases heq
        exact ⟨_, htakes⟩
      · exact ih hmem
  | name _ _ ih =>
      rcases List.mem_cons.mp hmem with heq | hmem
      · cases heq
      · exact ih hmem

/-- **The account of generated names.** In every history that takes fewer names than there are
numbers for them, whatever becomes of its calls, the names are numbered one after another from where
the supply stood, in the order in which they are taken, and none is taken twice. (Numbers are words
of 64 bits; from the start of the supply they count up from one.) And every call takes as many names
as its form says. -/
theorem accounts (h : History first steps last)
    (hround : (Step.taken steps).length < UInt64.size) :
    Step.taken steps = (List.range' first.supply.next (Step.taken steps).length).map
        (fun n => SetName.numbered (n % UInt64.size)) ∧
      (first.supply = .initial → Step.taken steps =
        (List.range' 1 (Step.taken steps).length).map SetName.numbered) ∧
      (Step.taken steps).Nodup ∧
      ∀ event supply names, Step.call event supply names ∈ steps →
        event.call.Account supply event.outcome names.length := by
  have hnext := h.next_le
  have htaken := h.taken_eq
  rw [htaken, NameSupply.length_upTo] at hround
  rw [htaken, NameSupply.length_upTo]
  refine ⟨rfl, fun hinitial => ?_, NameSupply.nodup_upTo (by omega),
    fun event supply names hmem => ?_⟩
  -- The first number is one, so fewer names than there are numbers end before the last of these.
  · rw [hinitial] at hround ⊢
    have hstart : NameSupply.initial.next = 1 := rfl
    exact NameSupply.upTo_initial (by omega)
  · obtain ⟨rest, htakes⟩ := h.takes_of_mem hmem
    exact Call.account htakes

end History

namespace Park

/-- The ways of the park, under the name of its nodes. -/
def selectNamesakes : Call :=
  .select .way (.filter .empty) (some "nodes") (some (.region region)) .natural

/-- The nodes among the ways, which is refused. -/
def intersect : Call := .combine (.intersection .node) nodes (select .way ⟨"_s1"⟩)

/-- A union of several queries, of which the second is refused. -/
def uniteAll : Call :=
  .combineAll .union nodes
    [select .way ⟨"_s1"⟩, select .way ⟨"nodes"⟩, select .way ⟨"_s1"⟩]

def refused : Session := (third.after selectNamesakes).after intersect

/-- The session after the caller has taken a name. -/
def skipped : Session := ⟨refused.built, refused.supply.advance⟩

def steps : List Step :=
  [first.step selectNodes, second.step selectWays, third.step selectNamesakes,
    (third.after selectNamesakes).step intersect, .name refused.supply.name,
    skipped.step uniteAll]

theorem history_steps : History first steps (skipped.after uniteAll) :=
  .step (by decide) (.step (by decide) (.step (by decide) (.step (by decide)
    (.name (.name refused.supply) (.step (by decide) .nil)))))

end Park

/-- Of five names, one is taken by an intersection that is refused, one by the caller, and two by a
union of several queries that is refused at its second step. -/
theorem History.accounts_park :
    History Park.first Park.steps (Park.skipped.after Park.uniteAll) ∧
      Step.taken Park.steps = [⟨"_s1"⟩, ⟨"_s2"⟩, ⟨"_s3"⟩, ⟨"_s4"⟩, ⟨"_s5"⟩] ∧
      (Step.taken Park.steps).Nodup ∧
      Park.intersect.Account ⟨2⟩ (.error (.kindMismatch .node (some .node) (some .way))) 1 ∧
      Park.uniteAll.Account ⟨4⟩ (.error (.nameConflict ⟨"nodes"⟩)) 2 := by
  have hlength : (Step.taken Park.steps).length = 5 := rfl
  obtain ⟨-, hnumbers, hnodup, haccount⟩ := Park.history_steps.accounts (by rw [hlength]; decide)
  refine ⟨Park.history_steps, (hnumbers rfl).trans rfl, hnodup, ?_, ?_⟩
  · exact haccount ⟨Park.intersect, _⟩ ⟨2⟩ [⟨"_s2"⟩] (List.mem_of_getElem? (i := 3) rfl)
  · exact haccount ⟨Park.uniteAll, _⟩ ⟨4⟩ [⟨"_s4"⟩, ⟨"_s5"⟩] (List.mem_of_getElem? (i := 5) rfl)

end Overpass
