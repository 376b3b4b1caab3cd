import Overpass.Proofs.Program.Compatible
import Overpass.Proofs.Query.Formed

/-!
# What a named operation comes to

A union, difference, intersection or recursion under a caller's name can be refused for three
reasons: the name is no name, an operand is not of the kind of the intersection, or names conflict.
They are tested in this order, and what passes all tests is carried out.

Names conflict in two ways. Either the operands bind a name to definitions that cannot both stand,
or the caller's name is bound already, to whatever it may be. That the latter is always a refusal
cannot be read off the insertion of a definition, which accepts a definition that is there; it holds
because the new definition is never there.

## Main Definitions

* `Query.ConflictsAt`: the names at which two operands conflict, for an operation of a given name
* `Query.Carries`: the outcome of an operation whose name is read
* `Query.Outcome`: the outcome of an operation under a caller's name

## Main Statements

* `Formed.carries_combine`, `Formed.carries_follow`: the outcomes under a name that is read
* `Query.named_outcome`: the outcomes of the operations under a caller's name
-/

namespace Overpass

open Program

namespace Query

/-- Two operands conflict at a name, for an operation of a given name: they clash there, or it is
the given name and one of them binds it. -/
def ConflictsAt (a b : Query) (name n : SetName) : Prop :=
  a.program.ClashesAt b.program n ∨
    n = name ∧ (a.program.binds name = true ∨ b.program.binds name = true)

/-- The outcome of an operation whose name is read, in terms of whether its operands are of the
right kinds, of the names that conflict, and of the program of the operands. -/
structure Carries (fits : Prop) (conflicts : SetName → Prop) (operands : Except QueryError Program)
    (operation : Operation) (result : Except QueryError Query) : Prop where
  /-- Kinds are tested first. -/
  mismatch : (∃ kind left right, result = .error (.kindMismatch kind left right)) ↔ ¬ fits
  /-- Names are tested next. -/
  conflict : fits → ((∃ n, result = .error (.nameConflict n)) ↔ ∃ n, conflicts n)
  /-- The name that is reported is one that conflicts. -/
  reported : ∀ n, result = .error (.nameConflict n) → conflicts n
  /-- Otherwise the operation is put last in the program of the operands, and is the root. -/
  carried : fits → (∀ n, ¬ conflicts n) → ∃ program, operands = .ok program ∧
    result =
      .ok ⟨operation.name, { program with operations := program.operations ++ [operation] }⟩

/-- The outcome of an operation under a caller's name, check by check: of the name as a text, of the
kinds, and of the names that are bound already. -/
structure Outcome (text : String) (fits : Prop) (conflicts : SetName → SetName → Prop)
    (operands : Except QueryError Program) (formula : Formula)
    (result : Except QueryError Query) : Prop where
  /-- The name is read before anything else is tested. -/
  invalid : result = .error (.invalidName text) ↔ ∀ name, SetName.parse text ≠ .ok name
  named : ∀ name, SetName.parse text = .ok name →
    Carries fits (conflicts name) operands ⟨name, formula⟩ result

namespace Carries

variable {fits : Prop} {conflicts : SetName → Prop} {operands : Except QueryError Program}
  {operation : Operation} {result : Except QueryError Query}

theorem of_mismatch (hfits : ¬ fits) {kind : ElementKind} {left right : Option ElementKind}
    (h : result = .error (.kindMismatch kind left right)) :
    Carries fits conflicts operands operation result where
  mismatch := ⟨fun _ => hfits, fun _ => ⟨kind, left, right, h⟩⟩
  conflict := fun hfits' => absurd hfits' hfits
  reported := fun n hn => by rw [h] at hn; cases hn
  carried := fun hfits' => absurd hfits' hfits

theorem of_conflict (hfits : fits) {n : SetName} (hn : conflicts n)
    (h : result = .error (.nameConflict n)) :
    Carries fits conflicts operands operation result where
  mismatch := by
    refine ⟨?_, fun hnot => absurd hfits hnot⟩
    rintro ⟨kind, left, right, heq⟩
    rw [h] at heq
    cases heq
  conflict := fun _ => ⟨fun _ => ⟨n, hn⟩, fun _ => ⟨n, h⟩⟩
  reported := fun m hm => by
    rw [h] at hm
    cases hm
    exact hn
  carried := fun _ hnone => absurd hn (hnone n)

theorem of_carried (hfits : fits) (hnone : ∀ n, ¬ conflicts n) {program : Program}
    (hprogram : operands = .ok program)
    (h : result =
      .ok ⟨operation.name, { program with operations := program.operations ++ [operation] }⟩) :
    Carries fits conflicts operands operation result where
  mismatch := by
    refine ⟨?_, fun hnot => absurd hfits hnot⟩
    rintro ⟨kind, left, right, heq⟩
    rw [h] at heq
    cases heq
  conflict := fun _ => by
    refine ⟨?_, fun ⟨n, hn⟩ => absurd hn (hnone n)⟩
    rintro ⟨n, hn⟩
    rw [h] at hn
    cases hn
  reported := fun n hn => by rw [h] at hn; cases hn
  carried := fun _ _ => ⟨program, hprogram, h⟩

/-- There is no outcome beyond the two refusals and success, once the name is read. -/
theorem ne_invalidName (h : Carries fits conflicts operands operation result) (text : String) :
    result ≠ .error (.invalidName text) := by
  intro heq
  by_cases hfits : fits
  · by_cases hconflicts : ∃ n, conflicts n
    · obtain ⟨n, hn⟩ := (h.conflict hfits).mpr hconflicts
      rw [hn] at heq
      cases heq
    · obtain ⟨program, -, hok⟩ := h.carried hfits (not_exists.mp hconflicts)
      rw [hok] at heq
      cases heq
  · obtain ⟨kind, left, right, hmismatch⟩ := h.mismatch.mpr hfits
    rw [hmismatch] at heq
    cases heq

/-- The outcome under a caller's name, from the outcomes under all names: reading the name comes
first, and it is the only step that can find it invalid. -/
theorem outcome {conflicts : SetName → SetName → Prop} {formula : Formula}
    {perform : SetName → Except QueryError Query}
    (h : ∀ name, Carries fits (conflicts name) operands ⟨name, formula⟩ (perform name))
    (text : String) :
    Outcome text fits conflicts operands formula (SetName.parse text >>= perform) := by
  cases hparse : SetName.parse text with
  | error cause =>
      have hcause : cause = .invalidName text := by
        unfold SetName.parse at hparse
        split at hparse <;> cases hparse
        rfl
      subst hcause
      exact ⟨by simp [hparse, bind, Except.bind], fun name hname => by simp [hparse] at hname⟩
  | ok name =>
      refine ⟨⟨fun heq => absurd heq ((h name).ne_invalidName text),
        fun hnone => absurd hparse (hnone name)⟩, ?_⟩
      intro other hother
      rw [hparse] at hother
      cases hother
      exact h name

end Carries

/-- Operands are refused for their kinds, and for nothing else. The refusal shows the kind that was
asked for and the kinds of both operands. -/
theorem exists_checkOperands_eq_error {operator : BinaryOperator} {a b : Query}
    (h : checkOperands operator a b ≠ .ok ()) :
    ∃ kind left right, checkOperands operator a b = .error (.kindMismatch kind left right) := by
  cases operator with
  | union => exact absurd rfl h
  | difference => exact absurd rfl h
  | intersection kind =>
      refine ⟨kind, a.kind, b.kind, if_neg fun hkinds => h (if_pos hkinds)⟩

/-- Operands are accepted if they are of the kind of the intersection. Unions and differences accept
operands of all kinds, known or not. -/
theorem checkOperands_eq_ok_iff {operator : BinaryOperator} {a b : Query} :
    checkOperands operator a b = .ok () ↔
      ∀ kind, operator = .intersection kind → a.kind = some kind ∧ b.kind = some kind := by
  cases operator <;> simp [checkOperands]

end Query

namespace Formed

variable {e f : Expression} {a b : Query}

/-- **The outcome of a combination**: kinds are tested first, the programs are merged next, and the
operation is put last if its name is free. -/
theorem carries_combine (ha : Formed e a) (hb : Formed f b) (operator : BinaryOperator)
    (name : SetName) :
    Query.Carries (Query.checkOperands operator a b = .ok ()) (a.ConflictsAt b name)
      (a.program.merge b.program) ⟨name, .binary operator a.root b.root⟩
      (Query.combine operator a b name) := by
  have hp := ha.wellFormed.nodup
  have hq := hb.wellFormed.nodup
  by_cases hkinds : Query.checkOperands operator a b = .ok ()
  · by_cases hcompatible : a.program.Compatible b.program
    · have hcombine := ha.combine_eq hb hkinds hcompatible name
      have hbound : name ∈ (a.program.join b.program).names ↔
          a.program.binds name = true ∨ b.program.binds name = true := by
        rw [mem_names_join, binds_iff, binds_iff]
      by_cases hname : name ∈ (a.program.join b.program).names
      · rw [if_pos hname] at hcombine
        exact .of_conflict hkinds (Or.inr ⟨rfl, hbound.mp hname⟩) hcombine
      · rw [if_neg hname] at hcombine
        have hmerge := (merge_eq_ok_iff _ hq).mpr ⟨hcompatible, rfl⟩
        refine .of_carried hkinds (fun n hn => ?_) hmerge hcombine
        rcases hn with hclash | ⟨-, hbinds⟩
        · exact (compatible_iff_forall_not_clashesAt hp hq).mp hcompatible n hclash
        · exact hname (hbound.mpr hbinds)
    · obtain ⟨n, hmerge, hclash⟩ := exists_merge_eq_error hp hq hcompatible
      refine .of_conflict hkinds (Or.inl hclash) ?_
      rw [Query.combine, hkinds, hmerge]
      rfl
  · obtain ⟨kind, left, right, herror⟩ := Query.exists_checkOperands_eq_error hkinds
    have hcombine : Query.combine operator a b name = .error (.kindMismatch kind left right) := by
      rw [Query.combine, herror]
      rfl
    exact .of_mismatch hkinds hcombine

/-- **The outcome of a recursion.** There are no kinds to test, and only its own name can
conflict. -/
theorem carries_follow (ha : Formed e a) (direction : Direction) (name : SetName) :
    Query.Carries True (fun n => n = name ∧ a.program.binds name = true) (.ok a.program)
      ⟨name, .recurse direction a.root⟩ (Query.follow direction a name) := by
  have hfollow := ha.follow_eq direction name
  by_cases hname : name ∈ a.program.names
  · rw [if_pos hname] at hfollow
    exact .of_conflict trivial ⟨rfl, binds_iff.mpr hname⟩ hfollow
  · rw [if_neg hname] at hfollow
    exact .of_carried trivial (fun n hn => hname (binds_iff.mp hn.2)) rfl hfollow

end Formed

/-- **Exact outcomes under a caller's name.** Unions and differences are refused for their name or
for conflicts, intersections also for the kinds of their operands, and recursions for their name or
because it is bound; everything else is carried out. -/
theorem Query.named_outcome (a b : Query) (ha : a.Reachable) (hb : b.Reachable) (text : String) :
    Outcome text True (a.ConflictsAt b) (a.program.merge b.program)
      (.binary .union a.root b.root) (a.unionAs b text) ∧
    Outcome text True (a.ConflictsAt b) (a.program.merge b.program)
      (.binary .difference a.root b.root) (a.differenceAs b text) ∧
    (∀ kind, Outcome text (a.kind = some kind ∧ b.kind = some kind) (a.ConflictsAt b)
      (a.program.merge b.program) (.binary (.intersection kind) a.root b.root)
      (a.intersectAs b kind text)) ∧
    ∀ direction, Outcome text True (fun name n => n = name ∧ a.program.binds name = true)
      (.ok a.program) (.recurse direction a.root) (a.recurseAs direction text) := by
  obtain ⟨e, he⟩ := ha.exists_formed
  obtain ⟨f, hf⟩ := hb.exists_formed
  have hoperator : ∀ (operator : BinaryOperator) (fits : Prop),
      (checkOperands operator a b = .ok () ↔ fits) →
      Outcome text fits (a.ConflictsAt b) (a.program.merge b.program)
        (.binary operator a.root b.root) (combineAs operator a b text) := by
    intro operator fits hfits
    obtain rfl := propext hfits
    exact Carries.outcome (he.carries_combine hf operator) text
  refine ⟨hoperator .union True ?_, hoperator .difference True ?_, fun kind =>
    hoperator (.intersection kind) _ ?_, fun direction => ?_⟩
  · simp [checkOperands_eq_ok_iff]
  · simp [checkOperands_eq_ok_iff]
  · simp [checkOperands_eq_ok_iff]
  · exact Carries.outcome (he.carries_follow direction) text

/-- The nodes and the ways of the park are united under a free name, and under no other. -/
theorem Query.named_outcome_park :
    Park.nodes.unionAs Park.ways "both" = .ok Park.both ∧
    (∃ n, Park.nodes.unionAs Park.ways "ways" = .error (.nameConflict n)) ∧
    Park.nodes.unionAs Park.ways "_s1" = .error (.invalidName "_s1") ∧
    ∃ kind left right,
      Park.nodes.intersectAs Park.ways .node "both" = .error (.kindMismatch kind left right) := by
  have houtcome := named_outcome Park.nodes Park.ways ⟨_, Park.built_nodes⟩ ⟨_, Park.built_ways⟩
  have hfree : ∀ n, ¬ Park.nodes.ConflictsAt Park.ways ⟨"both"⟩ n := by
    rintro n (hclash | ⟨-, hbinds⟩)
    · refine (compatible_iff_forall_not_clashesAt ?_ ?_).mp ?_ n hclash <;> decide
    · revert hbinds
      decide
  refine ⟨?_, ?_, ?_, ?_⟩
  · obtain ⟨program, hprogram, hresult⟩ :=
      ((houtcome "both").1.named ⟨"both"⟩ rfl).carried trivial hfree
    cases hprogram
    exact hresult
  · refine (((houtcome "ways").1.named ⟨"ways"⟩ rfl).conflict trivial).mpr ⟨⟨"ways"⟩, ?_⟩
    exact Or.inr ⟨rfl, Or.inr rfl⟩
  · exact (houtcome "_s1").1.invalid.mpr fun name h => by cases h
  · refine ((((houtcome "both").2.2.1 .node).named ⟨"both"⟩ rfl).mismatch).mpr ?_
    rintro ⟨-, hways⟩
    cases hways

end Overpass
