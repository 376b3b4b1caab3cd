import Overpass.Proofs.Program.Join
import Overpass.Proofs.Query.Formed

/-!
# The order of areas

Areas are printed before everything else, in the order of the list that holds them. This is the
order in which the selections, taken in the order of their own list, first look into them. Neither
list knows of the other: a merge goes through the areas first and through the selections afterwards,
and drops from each list what is bound already. The orders stay in step because a selection never
travels without its area. What is dropped from the second program's selections looks only into
areas that the first one has; and what is kept mentions the areas that are kept in the same order as
before, if those that the first program has are passed over.

## Main Definitions

* `Program.scopeNames`, `Program.mentions`: the sets and the areas that the selections look directly
  into, one after the other
* `Program.AreasInOrder`: whether the areas stand in the order of their first mention

## Main Statements

* `Program.AreasInOrder.join`, `Program.AreasInOrder.append_selection`: how the invariant is kept
* `Program.Reachable.areas_in_order`: the invariant of all programs that a caller can obtain
-/

namespace Overpass

/-! ### First occurrences -/

section FirstOccurrences

variable {α β : Type}

/-- Items that contribute nothing may be left out, such as operations and selections that look into
sets other than areas. -/
theorem flatMap_filter_eq {keep : β → Bool} {f : β → List α} {xs : List β}
    (h : ∀ x ∈ xs, keep x = false → f x = []) : (xs.filter keep).flatMap f = xs.flatMap f := by
  induction xs with
  | nil => rfl
  | cons x rest ih =>
      obtain ⟨hx, hrest⟩ := List.forall_mem_cons.mp h
      cases hkeep : keep x with
      | true => rw [List.filter_cons_of_pos hkeep, List.flatMap_cons, List.flatMap_cons, ih hrest]
      | false =>
          rw [List.filter_cons_of_neg (by simp [hkeep]), List.flatMap_cons, hx hkeep,
            List.nil_append, ih hrest]

variable [DecidableEq α]

/-- What is left out may be left out before or after the repetitions are. By induction on the
length, since the items that equal the first one are taken from all over the rest. -/
theorem eraseDups_filter (keep : α → Bool) (xs : List α) :
    (xs.filter keep).eraseDups = xs.eraseDups.filter keep := by
  match xs with
  | [] => rfl
  | x :: rest =>
      -- The induction is on the length: what equals the first item goes from the rest.
      have ih := eraseDups_filter keep (rest.filter fun y => !y == x)
      rw [List.eraseDups_cons]
      cases hx : keep x with
      | true =>
          rw [List.filter_cons_of_pos hx, List.filter_cons_of_pos hx, List.eraseDups_cons,
            List.filter_comm, ih]
      | false =>
          have hsame : (rest.filter fun y => !y == x).filter keep = rest.filter keep := by
            rw [List.filter_filter]
            refine List.filter_congr fun y _ => ?_
            cases hy : keep y with
            | false => rfl
            | true =>
                have hne : y ≠ x := by
                  rintro rfl
                  exact absurd (hx.symm.trans hy) Bool.false_ne_true
                simp [hne]
          have hneg : ¬ keep x = true := by simp [hx]
          rw [List.filter_cons_of_neg hneg, List.filter_cons_of_neg hneg, ← ih, hsame]
termination_by xs.length
decreasing_by exact Nat.lt_succ_of_le (List.length_filter_le _ _)

/-- Of a second list only what is new comes first anywhere. This is what a merge does to the areas
of its right side. -/
theorem eraseDups_append_filter (xs ys : List α) :
    (xs ++ ys).eraseDups = xs.eraseDups ++ (ys.filter (· ∉ xs)).eraseDups := by
  rw [List.eraseDups_append, List.removeAll]
  simp

end FirstOccurrences

namespace Program

variable {p q : Program} {s : Selection} {n : SetName} {b : Binding}

/-! ### Mentions of areas -/

/-- The names that the selections refer to, in the order of the selections, be they areas or other
selections. -/
def scopeNames (p : Program) : List SetName := p.selections.flatMap fun s => s.scope.references

/-- The areas that the selections look directly into, as often as they do, in the order of the
selections. -/
def mentions (p : Program) : List SetName := p.scopeNames.filter (· ∈ p.namesOf .area)

/-- Whether the areas stand in the order in which the selections first mention them. -/
def AreasInOrder (p : Program) : Prop := p.namesOf .area = p.mentions.eraseDups

/-- What the selections of a well-formed program look into is bound there. -/
theorem mem_names_of_mem_scopeNames (hp : p.WellFormed) (hn : n ∈ p.scopeNames) :
    n ∈ p.names := by
  obtain ⟨s, hs, hn⟩ := List.mem_flatMap.mp hn
  exact hp.closed (signature_mem_signatures (selection_mem_definitions.mpr hs)) hn

/-- A selection that both programs have refers to names of either: compatible programs agree on its
scope, and each binds what its own selections look into. -/
theorem Compatible.mem_names_of_mem_scope (h : p.Compatible q) (hp : p.WellFormed)
    (hs : s ∈ q.selections) (hname : s.name ∈ p.names) (hn : n ∈ s.scope.references) :
    n ∈ p.names :=
  hp.closed (h.mem_signatures (signature_mem_signatures (selection_mem_definitions.mpr hs)) hname)
    hn

theorem AreasInOrder.eq (h : p.AreasInOrder) : p.namesOf .area = p.mentions.eraseDups := h

theorem AreasInOrder.mem_mentions (h : p.AreasInOrder) :
    n ∈ p.mentions ↔ n ∈ p.namesOf .area := by
  rw [h.eq, List.mem_eraseDups]

/-- The left side of a join mentions the areas that it mentioned before: the areas that come from
the right side have names that it does not bind. -/
theorem filter_scopeNames_join (hp : p.WellFormed) (q : Program) :
    p.scopeNames.filter (· ∈ (p.join q).namesOf .area) = p.mentions := by
  refine List.filter_congr fun n hn => decide_eq_decide.mpr ?_
  have hbound := mem_names_of_mem_scopeNames hp hn
  rw [mem_namesOf_join]
  exact or_iff_left fun hnew => hnew.2 hbound

/-- A name of one sort that a join has and the left side has not is one that the right side has and
the left side does not bind at all. -/
theorem mem_namesOf_join_of_notMem :
    (n ∉ p.namesOf b ∧ n ∈ (p.join q).namesOf b) ↔ n ∉ p.names ∧ n ∈ q.namesOf b := by
  rw [mem_namesOf_join]
  constructor
  · rintro ⟨hold, hmem | ⟨hmem, hnew⟩⟩
    · exact absurd hmem hold
    · exact ⟨hnew, hmem⟩
  · rintro ⟨hnew, hmem⟩
    exact ⟨fun hold => hnew (mem_names_of_mem_namesOf hold), Or.inr ⟨hmem, hnew⟩⟩

/-- A join mentions what the left side mentions, and then, apart from areas of the left side, what
the right side mentions and the left side does not bind. -/
theorem exists_mentions_join (hp : p.WellFormed) (h : p.Compatible q) :
    ∃ later, (p.join q).mentions = p.mentions ++ later ∧
      later.filter (· ∉ p.namesOf .area) = q.mentions.filter (· ∉ p.names) := by
  refine ⟨((q.selections.filter fun s => s.name ∉ p.names).flatMap fun s =>
    s.scope.references).filter (· ∈ (p.join q).namesOf .area), ?_, ?_⟩
  · rw [← filter_scopeNames_join hp q, mentions, scopeNames, selections_join, List.flatMap_append,
      List.filter_append]
    rfl
  · simp only [mentions, scopeNames, List.filter_filter, ← Bool.decide_and,
      mem_namesOf_join_of_notMem, List.filter_flatMap]
    -- What the left side binds already is left out, and refers only to names that it binds.
    refine flatMap_filter_eq fun s hs hdropped => List.filter_eq_nil_iff.mpr fun n hn => ?_
    have hname : s.name ∈ p.names := by simpa using hdropped
    have hbound := h.mem_names_of_mem_scope hp hs hname hn
    simp [hbound]

/-- Joining keeps the areas in order. The right side's selections that are dropped mention only
areas of the left side, so that what is kept mentions its areas in the order in which they are
kept. -/
theorem AreasInOrder.join (hporder : p.AreasInOrder) (hqorder : q.AreasInOrder)
    (hp : p.WellFormed) (h : p.Compatible q) : (p.join q).AreasInOrder := by
  obtain ⟨later, hmentions, hlater⟩ := exists_mentions_join hp h
  unfold AreasInOrder
  calc (p.join q).namesOf .area
      = p.namesOf .area ++ (q.namesOf .area).filter (· ∉ p.names) := namesOf_join p q .area
    _ = p.mentions.eraseDups ++ (q.mentions.filter (· ∉ p.names)).eraseDups := by
        rw [eraseDups_filter, ← hporder.eq, ← hqorder.eq]
    _ = p.mentions.eraseDups ++ (later.filter (· ∉ p.mentions)).eraseDups := by
        simp only [hporder.mem_mentions, hlater]
    _ = (p.join q).mentions.eraseDups := by rw [hmentions, eraseDups_append_filter]

/-- A selection that looks into a set other than an area mentions none, and so it changes neither of
the two orders. -/
theorem AreasInOrder.append_selection (h : p.AreasInOrder)
    (hscope : ∀ n ∈ p.namesOf .area, s.scope ≠ .named n) :
    (p.append (.selection s)).AreasInOrder := by
  have hmentions : (p.append (.selection s)).mentions = p.mentions := by
    have harea : (p.append (.selection s)).namesOf .area = p.namesOf .area := rfl
    have hnone : s.scope.references.filter (· ∈ p.namesOf .area) = [] := by
      cases hs : s.scope with
      | inline region => rfl
      | named n =>
          have hn : n ∉ p.namesOf .area := fun hmem => hscope n hmem hs
          simp [Scope.references, hn]
    rw [mentions, harea, scopeNames, append, List.flatMap_append, List.filter_append,
      List.flatMap_singleton, hnone, List.append_nil]
    rfl
  rw [AreasInOrder, hmentions]
  exact h

/-- An operation mentions no area, since operations refer to selections and to other operations. -/
theorem AreasInOrder.append_operation (h : p.AreasInOrder) (o : Operation) :
    (p.append (.operation o)).AreasInOrder := h

/-- A region that is brought in by a selection is mentioned by it, and by it alone. -/
theorem areasInOrder_shared (kind : ElementKind) (tags : TagFilter) (region : Region)
    (name : SetName) :
    ((Program.empty.append (.area ⟨kind, region⟩)).append
      (.selection ⟨name, kind, .named region.name, tags⟩)).AreasInOrder := by
  simp [AreasInOrder, mentions, scopeNames, append, empty, namesOf, Scope.references, Area.name,
    List.eraseDups_cons]

theorem areasInOrder_empty : Program.empty.AreasInOrder := rfl

end Program

open Program

/-- **Areas stand in the order of their first mention**: in all programs that a caller can obtain,
merged as they may be, the areas are those that the selections look directly into, in the order in
which the selections first do. -/
theorem Program.Reachable.areas_in_order {p : Program} (hp : p.Reachable) :
    p.namesOf .area = p.mentions.eraseDups := by
  have hjoin : ∀ {q r : Program}, q.AreasInOrder → r.AreasInOrder → q.WellFormed →
      r.WellFormed → q.Compatible r → (q.join r).AreasInOrder :=
    fun hqorder hrorder hq _ hcompatible => hqorder.join hrorder hq hcompatible
  exact hp.invariant areasInOrder_empty areasInOrder_shared AreasInOrder.append_selection
    (fun o h => h.append_operation o) hjoin

namespace Park

/-- A pond beside the park. -/
def pond : Region := { region with name := ⟨"pond"⟩ }

/-- The nodes in the pond. -/
def fish : Query where
  root := ⟨"fish"⟩
  program := ⟨[⟨.node, pond⟩], [⟨⟨"fish"⟩, .node, .named ⟨"pond"⟩, .empty⟩], []⟩

theorem built_fish : Built (.inRegion .node .empty pond) fish := by
  have hbuild : (Draft.build ⟨.node, .ok .empty, some (.ok ⟨"fish"⟩), some (.region pond)⟩
      .natural).runOn .initial = (.ok fish, .initial) := rfl
  exact .inRegion rfl rfl rfl hbuild

end Park

/-- The pond comes before the park, which is mentioned twice, if it is merged with it. -/
theorem Program.areas_in_order_pond :
    ∃ merged : Program, Park.fish.program.merge Park.both.program = .ok merged ∧
      merged.mentions = [⟨"pond"⟩, ⟨"park"⟩, ⟨"park"⟩] ∧
      merged.namesOf .area = [⟨"pond"⟩, ⟨"park"⟩] := by
  obtain ⟨merged, hmerge, hmentions⟩ : ∃ merged : Program,
      Park.fish.program.merge Park.both.program = .ok merged ∧
        merged.mentions = [⟨"pond"⟩, ⟨"park"⟩, ⟨"park"⟩] := ⟨_, rfl, rfl⟩
  have hreachable : merged.Reachable :=
    .merge (.ofQuery ⟨_, Park.built_fish⟩) (.ofQuery ⟨_, Park.built_both⟩) hmerge
  refine ⟨merged, hmerge, hmentions, ?_⟩
  rw [hreachable.areas_in_order, hmentions]
  rfl

end Overpass
