import Overpass.Proofs.Query.Coherent
import Overpass.Proofs.SetName.Generated

/-!
# Names conflict only if callers make them

A call that is refused because of a name has met two definitions of that name. In a run this can
only happen if callers gave a name twice, brought in regions of one name that differ, or whose name
is also given or generated, or had names generated until their numbers started over. Everything else
that a run does with names is safe: generated names are new, given names are never generated ones,
and a definition that reaches an operation along several paths is the same on all of them.

The proof is an induction on runs. Its invariant is that the queries built so far are coherent,
where the names taken are those that were given and those that were generated since the start.

## Main Definitions

* `Call.name?`: the name that a caller gives to a call
* `takenNames`: the names that were given or generated
* `Event.givenNames`, `Event.regions`: what callers contribute to a run

## Main Statements

* `Coherent.call`: a call with new names is not refused because of a name, and keeps queries
  coherent
* `Run.no_conflict`: runs in which callers keep their names apart have no conflicts
-/

namespace Overpass

/-! ### Names that were taken -/

/-- The name that a caller gives to a call, if it is one. -/
def Call.name? (call : Call) : Option SetName := call.text?.bind SetName.ofText?

/-- The names that were given, and those generated from one moment of a supply to another. -/
def takenNames (given : List SetName) (first supply : NameSupply) : Set SetName :=
  { n | n ∈ given ∨ first.Gives supply n }

section Taken

variable {given : List SetName} {first supply : NameSupply} {n : SetName}

theorem takenNames_cons :
    takenNames (n :: given) first supply = takenNames given first supply ∪ {n} := by
  ext m
  simp only [takenNames, List.mem_cons, Set.mem_ofPred_eq, Set.mem_union, Set.mem_singleton_iff]
  tauto

theorem takenNames_advance (hfirst : first.next ≤ supply.next) :
    takenNames given first supply.advance = takenNames given first supply ∪ {supply.name} := by
  ext m
  simp only [takenNames, Set.mem_ofPred_eq, Set.mem_union, Set.mem_singleton_iff,
    NameSupply.gives_advance_iff hfirst]
  tauto

end Taken

/-! ### Calls -/

/-- What keeps the names of a run apart: the numbers of generated names do not start over, the names
given so far are ones that a caller can give, and regions have names that are not generated. -/
structure Apart (regions : List Region) (given : List SetName) (first last : NameSupply) :
    Prop where
  round : last.next < first.next + UInt64.size
  given_ofText? : ∀ n ∈ given, ∃ text, SetName.ofText? text = some n
  region_not_gives : ∀ r ∈ regions, ¬ first.Gives last r.name

section Calls

variable {regions : List Region} {given : List SetName} {first supply last : NameSupply}
  {built : List Query} {n : SetName}

/-- The name that is generated next is new: it was not generated before in this run, and callers can
give no generated names. -/
theorem Apart.isNew_name (h : Apart regions given first last) (hfirst : first.next ≤ supply.next)
    (hlast : supply.next < last.next) :
    IsNew regions (takenNames given first supply) supply.name where
  notMem := by
    rintro (hgiven | hgives)
    · obtain ⟨text, htext⟩ := h.given_ofText? _ hgiven
      exact SetName.parse_ne_ok_numbered text _ (SetName.parse_eq_ok_iff.mpr htext)
    · exact NameSupply.not_gives_name (hlast.trans h.round) hgives
  ne_region r hr hname := h.region_not_gives r hr ⟨supply, hfirst, hlast, hname.symm⟩

/-- A name that a caller gives for the first time is new, if no region has it. -/
theorem isNew_of_ofText? {text : String} (htext : SetName.ofText? text = some n)
    (hgiven : n ∉ given) (hregion : ∀ r ∈ regions, r.name ≠ n) :
    IsNew regions (takenNames given first supply) n where
  notMem := by
    rintro (hmem | ⟨earlier, -, -, rfl⟩)
    · exact hgiven hmem
    · exact SetName.parse_ne_ok_numbered text _ (SetName.parse_eq_ok_iff.mpr htext)
  ne_region := hregion

/-- A fold over several queries is a sequence of tasks under generated names. Each of them leaves
coherent queries, and its result is among them for the next. -/
theorem Coherent.foldCombine (h : Apart regions given first last) {operator : BinaryOperator}
    {others : List Query} {a : Query} {result : Except QueryError Query} {rest : NameSupply}
    (hcoherent : Coherent regions (takenNames given first supply) built)
    (hfirst : first.next ≤ supply.next) (ha : a ∈ built) (hothers : ∀ o ∈ others, o ∈ built)
    (hresult : Fresh.runOn (others.foldlM (Query.combineFresh operator) a) supply = (result, rest))
    (hlast : rest.next ≤ last.next) :
    ¬ Conflicts result ∧
      Coherent regions (takenNames given first rest) (result.toOption.toList ++ built) := by
  induction others generalizing a supply built with
  | nil =>
      cases hresult
      refine ⟨not_conflicts_ok a, hcoherent.mono subset_rfl ?_ hcoherent.apart⟩
      exact List.cons_subset.mpr ⟨ha, List.Subset.refl built⟩
  | cons b others ih =>
      have hnext : supply.advance.next ≤ last.next := by
        have hle := Query.next_le_foldCombine_cons operator a b others supply
        rw [hresult] at hle
        exact hle.trans hlast
      have hoperands : ∀ o ∈ (Task.combine operator a b).operands, o ∈ built := by
        intro o ho
        rcases List.mem_pair.mp ho with rfl | rfl
        exacts [ha, hothers _ List.mem_cons_self]
      obtain ⟨hconflicts, hstep⟩ := hcoherent.perform hoperands
        (fun region hregion => nomatch hregion) (h.isNew_name hfirst hnext)
      rw [← takenNames_advance hfirst] at hstep
      rw [Query.runOn_foldCombine_cons] at hresult
      rw [Task.perform] at hconflicts hstep
      cases hcombine : Query.combine operator a b supply.name with
      | error cause =>
          rw [hcombine] at hresult hconflicts hstep
          cases hresult
          exact ⟨hconflicts, hstep⟩
      | ok combined =>
          rw [hcombine] at hresult hstep
          obtain ⟨hrest, hcoherent'⟩ := ih hstep (hfirst.trans (Nat.le_succ _)) List.mem_cons_self
            (fun o ho => List.mem_cons_of_mem combined (hothers o (List.mem_cons_of_mem b ho)))
            hresult
          -- The results in between are not kept.
          refine ⟨hrest, hcoherent'.mono subset_rfl ?_ hcoherent'.apart⟩
          exact List.append_subset.mpr ⟨List.subset_append_left _ _,
            List.Subset.trans (List.subset_cons_self combined built)
              (List.subset_append_right _ _)⟩

/-- A task is performed under a new name, given or generated, and so the queries stay coherent
whatever becomes of it. -/
theorem Coherent.runOn (h : Apart regions given first last) {task : Task} {text? : Option String}
    {result : Except QueryError Query} {rest : NameSupply}
    (hcoherent : Coherent regions (takenNames given first supply) built)
    (hfirst : first.next ≤ supply.next) (hoperands : ∀ o ∈ task.operands, o ∈ built)
    (hregion : ∀ region, task.region? = some region → region ∈ regions)
    (hname : ∀ n, text?.bind SetName.ofText? = some n →
      IsNew regions (takenNames given first supply) n)
    (hresult : task.runOn text? supply = (result, rest)) (hlast : rest.next ≤ last.next) :
    ¬ Conflicts result ∧
      Coherent regions (takenNames ((text?.bind SetName.ofText?).toList ++ given) first rest)
        (result.toOption.toList ++ built) := by
  cases text? with
  | none =>
      cases hresult
      obtain ⟨hconflicts, hstep⟩ :=
        hcoherent.perform hoperands hregion (h.isNew_name hfirst hlast)
      rw [← takenNames_advance hfirst] at hstep
      exact ⟨hconflicts, hstep⟩
  | some text =>
      cases hresult
      cases htext : SetName.ofText? text with
      | none =>
          have hparse : SetName.parse text = .error (.invalidName text) := by
            rw [SetName.parse, htext]
          refine ⟨not_conflicts_bind (SetName.not_conflicts_parse text) fun n hn => ?_, ?_⟩
          · rw [hparse] at hn
            cases hn
          · rw [hparse, Option.bind_some, htext]
            exact hcoherent
      | some n =>
          rw [SetName.parse_eq_ok_iff.mpr htext, Option.bind_some, htext]
          obtain ⟨hconflicts, hstep⟩ := hcoherent.perform hoperands hregion (hname n htext)
          rw [← takenNames_cons] at hstep
          exact ⟨hconflicts, hstep⟩

/-- **A call with new names.** It is not refused because of a name, and afterwards the queries are
coherent still. -/
theorem Coherent.call (h : Apart regions given first last) {session : Session} {call : Call}
    (hcoherent : Coherent regions (takenNames given first session.supply) session.built)
    (hfirst : first.next ≤ session.supply.next)
    (hlast : (session.after call).supply.next ≤ last.next)
    (hoperands : ∀ o ∈ call.operands, o ∈ session.built)
    (hregion : ∀ region, call.region? = some region → region ∈ regions)
    (hname : ∀ n, call.name? = some n → n ∉ given ∧ ∀ r ∈ regions, r.name ≠ n) :
    ¬ Conflicts (session.outcome call) ∧
      Coherent regions (takenNames (call.name?.toList ++ given) first (session.after call).supply)
        (session.after call).built := by
  have hnew : ∀ n, call.name? = some n →
      IsNew regions (takenNames given first session.supply) n := by
    intro n hn
    obtain ⟨text, -, htext⟩ := Option.bind_eq_some_iff.mp hn
    obtain ⟨hgiven, hregions⟩ := hname n hn
    exact isNew_of_ofText? htext hgiven hregions
  cases htask : call.task? with
  | none =>
      obtain ⟨operator, a, others, rfl⟩ := Call.eq_combineAll_of_task?_eq_none htask
      exact hcoherent.foldCombine h hfirst (hoperands a List.mem_cons_self)
        (fun o ho => hoperands o (List.mem_cons_of_mem a ho)) rfl hlast
  | some checked =>
      cases checked with
      | error cause =>
          rw [Session.outcome, Session.after, Session.outcome, Call.runOn_of_error htask]
          constructor
          · rintro ⟨n, hn⟩
            exact Call.ne_nameConflict_of_task? htask n (Except.error.inj hn)
          -- A name that was given to a call in vain is taken nevertheless.
          · cases hcall : call.name? with
            | none => exact hcoherent
            | some n =>
                rw [Option.toList_some, List.singleton_append, takenNames_cons]
                exact hcoherent.take (hnew n hcall)
      | ok task =>
          obtain ⟨hsame, hsameregion⟩ := Call.operands_and_region?_of_task htask
          have hrun : call.run.runOn session.supply = task.runOn call.text? session.supply :=
            Call.runOn_of_task htask
          refine hcoherent.runOn h hfirst ?_ ?_ hnew hrun.symm hlast
          · rwa [hsame]
          · rwa [hsameregion]

end Calls

/-! ### Runs -/

/-- The names that callers give in a run, in their order and with repetitions. Texts that are no
names are left out. -/
def Event.givenNames (events : List Event) : List SetName :=
  events.filterMap fun event => event.call.name?

/-- The regions that callers bring in, as they are or as they are resolved. -/
def Event.regions (events : List Event) : List Region :=
  events.filterMap fun event => event.call.region?

theorem Event.givenNames_cons (event : Event) (events : List Event) :
    givenNames (event :: events) = event.call.name?.toList ++ givenNames events := by
  cases hname : event.call.name? <;> simp [givenNames, hname]

theorem Event.mem_regions_cons {event : Event} {events : List Event} {r : Region} :
    r ∈ regions (event :: events) ↔ event.call.region? = some r ∨ r ∈ regions events := by
  simp [regions]

/-- The rest of a run has no conflicts, if the queries built so far are coherent and the names that
are still to be given are new. -/
theorem Run.not_conflicts_of_coherent {regions : List Region} {given : List SetName}
    {first : NameSupply} {session last : Session} {events : List Event}
    (hrun : Run session events last) (hapart : Apart regions given first last.supply)
    (hcoherent : Coherent regions (takenNames given first session.supply) session.built)
    (hfirst : first.next ≤ session.supply.next)
    (hregions : ∀ r ∈ Event.regions events, r ∈ regions)
    (hnodup : (Event.givenNames events).Nodup)
    (hgiven : ∀ n ∈ Event.givenNames events, n ∉ given ∧ ∀ r ∈ regions, r.name ≠ n) :
    ∀ event ∈ events, ¬ Conflicts event.outcome := by
  induction hrun generalizing given with
  | nil => exact fun event hevent => absurd hevent List.not_mem_nil
  | @cons session last call events hoperands hrest ih =>
      rw [Event.givenNames_cons] at hnodup hgiven
      obtain ⟨-, hnodup, hdisjoint⟩ := List.nodup_append'.mp hnodup
      have hname : ∀ n, call.name? = some n → n ∈ call.name?.toList :=
        fun n hn => Option.mem_toList.mpr hn
      obtain ⟨hconflicts, hcoherent'⟩ := hcoherent.call hapart hfirst hrest.next_le hoperands
        (fun r hr => hregions r (Event.mem_regions_cons.mpr (Or.inl hr)))
        (fun n hn => hgiven n (List.mem_append_left _ (hname n hn)))
      have hapart' : Apart regions (call.name?.toList ++ given) first last.supply := by
        refine ⟨hapart.round, fun n hn => ?_, hapart.region_not_gives⟩
        rcases List.mem_append.mp hn with hn | hn
        · obtain ⟨text, -, htext⟩ := Option.bind_eq_some_iff.mp (Option.mem_toList.mp hn)
          exact ⟨text, htext⟩
        · exact hapart.given_ofText? n hn
      have hlater : ∀ n ∈ Event.givenNames events,
          n ∉ call.name?.toList ++ given ∧ ∀ r ∈ regions, r.name ≠ n := by
        intro n hn
        obtain ⟨hold, hregion⟩ := hgiven n (List.mem_append_right _ hn)
        refine ⟨fun hmem => ?_, hregion⟩
        rcases List.mem_append.mp hmem with hmem | hmem
        · exact hdisjoint hmem hn
        · exact hold hmem
      have hevents := ih hapart' hcoherent' (hfirst.trans (call.next_le session.supply))
        (fun r hr => hregions r (Event.mem_regions_cons.mpr (Or.inr hr))) hnodup hlater
      intro event hevent
      rcases List.mem_cons.mp hevent with rfl | hevent
      · exact hconflicts
      · exact hevents event hevent

/-- **Names conflict only if callers make them.** In a run from the start that generates fewer names
than there are numbers for them, in which no name is given twice, no region has a name that is given
or generated, and regions of one name are equal, no call is refused because of a name. (A region
with a coordinate that is no number does not even equal itself.) -/
theorem Run.no_conflict {supply : NameSupply} {events : List Event} {last : Session}
    (hrun : Run ⟨[], supply⟩ events last)
    (hround : last.supply.next < supply.next + UInt64.size)
    (hgiven : (Event.givenNames events).Nodup)
    (happart : ∀ r ∈ Event.regions events,
      r.name ∉ Event.givenNames events ∧ ¬ supply.Gives last.supply r.name)
    (hequal : ∀ r ∈ Event.regions events, ∀ s ∈ Event.regions events,
      r.name = s.name → r.Equal s) :
    ∀ event ∈ events, ∀ n, event.outcome ≠ .error (.nameConflict n) := by
  have hcoherent : Coherent (Event.regions events) (takenNames [] supply supply) [] := by
    refine .nil hequal fun r hr hmem => ?_
    rcases hmem with hmem | ⟨earlier, hafter, hbefore, -⟩
    · exact List.not_mem_nil hmem
    · exact absurd hafter (Nat.not_le.mpr hbefore)
  have hnames : Apart (Event.regions events) [] supply last.supply :=
    ⟨hround, fun n hn => absurd hn List.not_mem_nil, fun r hr => (happart r hr).2⟩
  have hfree : ∀ n ∈ Event.givenNames events,
      n ∉ [] ∧ ∀ r ∈ Event.regions events, r.name ≠ n := by
    intro n hn
    refine ⟨List.not_mem_nil, ?_⟩
    rintro r hr rfl
    exact (happart r hr).1 hn
  intro event hevent n hn
  exact hrun.not_conflicts_of_coherent hnames hcoherent (Nat.le_refl _) (fun _ hr => hr) hgiven
    hfree event hevent ⟨n, hn⟩

namespace Park

/-- The nodes of the park, under a given name. -/
def selectNodes : Call :=
  .select .node (.filter .empty) (some "nodes") (some (.region region)) .natural

/-- The ways of the park, under a generated name. -/
def selectWays : Call :=
  .select .way (.filter .empty) none (some (.region region)) .natural

/-- The union of both selections, each of which brings in the park. -/
def unite : Call := .combine .union nodes (select .way ⟨"_s1"⟩)

def united : Query where
  root := ⟨"_s2"⟩
  program :=
    ⟨[⟨.any, region⟩], nodes.program.selections ++ (select .way ⟨"_s1"⟩).program.selections,
      [⟨⟨"_s2"⟩, .binary .union ⟨"nodes"⟩ ⟨"_s1"⟩⟩]⟩

/-- The union without one of its parts, which brings in that part a second time. -/
def subtract : Call := .combine .difference united nodes

def first : Session := ⟨[], .initial⟩

def second : Session := first.after selectNodes

def third : Session := second.after selectWays

def fourth : Session := third.after unite

/-- What becomes of the four calls. -/
def events : List Event :=
  [⟨selectNodes, first.outcome selectNodes⟩, ⟨selectWays, second.outcome selectWays⟩,
    ⟨unite, third.outcome unite⟩, ⟨subtract, fourth.outcome subtract⟩]

theorem run_events : Run first events (fourth.after subtract) :=
  .cons (by decide) (.cons (by decide) (.cons (by decide) (.cons (by decide) .nil)))

end Park

theorem Run.no_conflict_park :
    Run Park.first Park.events (Park.fourth.after Park.subtract) ∧
      ∀ event ∈ Park.events, ∀ n, event.outcome ≠ .error (.nameConflict n) := by
  have happart : ∀ r ∈ Event.regions Park.events, r.name ∉ Event.givenNames Park.events ∧
      ¬ Park.first.supply.Gives (Park.fourth.after Park.subtract).supply r.name := by
    intro r hr
    have hregions : Event.regions Park.events = List.replicate 2 Park.region := rfl
    rw [hregions] at hr
    obtain rfl : r = Park.region := List.eq_of_mem_replicate hr
    refine ⟨by decide, ?_⟩
    rintro ⟨supply, -, -, hname⟩
    have hreserved := SetName.isReserved_numbered (supply.next % UInt64.size)
    rw [show SetName.numbered (supply.next % UInt64.size) = Park.region.name from hname]
      at hreserved
    exact absurd hreserved (by decide)
  exact ⟨Park.run_events,
    Park.run_events.no_conflict (by decide) (by decide) happart (by decide)⟩

end Overpass
