import Overpass.Proofs.Query.Order
import Overpass.Proofs.Query.Outcome

/-!
# The order of operands

A merge is not symmetric: it keeps the definitions of the first program, tests those of the second,
and widens areas in place. What comes of it is nevertheless the same set of definitions in either
order. Whether two programs can be merged does not depend on the order; a name that only one of them
binds keeps its definition; and of a name that both bind, the two definitions agree, so they are the
same but for the kinds of areas, and widening one kind by the other gives the kind that covers both.

The exception is a negative zero, which agrees with a positive one and is printed differently.

## Main Definitions

* `Query.OnlyLastLineDiffers`: outcomes whose scripts have the same lines before the last one

## Main Statements

* `Program.perm_definitions_join`: joins in either order have the same definitions
* `Query.combineAs_comm`: the order of a combination only changes the last line
* `Query.order_of_operands`: this for unions and differences
-/

namespace Overpass

/-! ### Definitions -/

theorem ElementKind.widen_comm (k l : ElementKind) : k.widen l = l.widen k := by
  unfold widen
  split_ifs with hkl hlk hlk
  · exact hkl
  · exact absurd hkl.symm hlk
  · exact absurd hlk.symm hkl
  · rfl

/-- Definitions that agree give the same definition, whichever of them stands for the other. Only
the kind of an area is put together, and it comes out the same both ways. -/
theorem Definition.Agrees.widenBy_comm {d e : Definition} (h : d.Agrees e) (hd : d.NoNegativeZero)
    (he : e.NoNegativeZero) : d.widenBy (some e) = e.widenBy (some d) := by
  rcases agrees_iff.mp h with ⟨a, b, rfl, rfl, hregion⟩ | ⟨s, t, rfl, rfl, heq⟩ | ⟨o, rfl, rfl⟩
  · have hregions : a.region = b.region :=
      hregion.eq (hd _ (List.mem_singleton.mpr rfl)) (he _ (List.mem_singleton.mpr rfl))
    simp only [widenBy, Area.widenBy, hregions, ElementKind.widen_comm a.kind b.kind]
  · rw [heq.eq hd he]
  · rfl

namespace Program

variable {p q : Program} {d : Definition}

/-! ### Joins -/

theorem mem_definitions_join_comm (h : p.Compatible q) (hp : p.names.Nodup)
    (hpzero : p.NoNegativeZero) (hqzero : q.NoNegativeZero) (hd : d ∈ (p.join q).definitions) :
    d ∈ (q.join p).definitions := by
  rw [mem_definitions_join] at hd ⊢
  rcases hd with ⟨e, he, rfl⟩ | ⟨hd, hnew⟩
  · cases hfind : q.definition? e.name with
    | none =>
        rw [Definition.widenBy_none]
        exact Or.inr ⟨he, definition?_eq_none_iff.mp hfind⟩
    | some f =>
        obtain ⟨hf, hname⟩ := mem_of_definition?_eq_some hfind
        have hagrees := (compatible_iff hp).mp h e he f hf hname.symm
        refine Or.inl ⟨f, hf, ?_⟩
        rw [(definition?_eq_some_iff hp).mpr ⟨he, hname.symm⟩]
        exact (hagrees.widenBy_comm (hpzero e he) (hqzero f hf)).symm
  · refine Or.inl ⟨d, hd, ?_⟩
    rw [definition?_eq_none_iff.mpr hnew, Definition.widenBy_none]

/-- Where no name is bound twice, no definition stands in a program twice. -/
theorem nodup_definitions (hp : p.names.Nodup) : p.definitions.Nodup := hp.of_map Definition.name

/-- **Joins in either order have the same definitions**, kinds of areas included, though not in the
same order. Negative zeros are excluded, because it is the copy on the left that stays. -/
theorem perm_definitions_join (h : p.Compatible q) (hp : p.names.Nodup) (hq : q.names.Nodup)
    (hpzero : p.NoNegativeZero) (hqzero : q.NoNegativeZero) :
    (p.join q).definitions.Perm (q.join p).definitions :=
  (List.perm_ext_iff_of_nodup (nodup_definitions (nodup_names_join hp hq))
    (nodup_definitions (nodup_names_join hq hp))).mpr fun _ =>
      ⟨mem_definitions_join_comm h hp hpzero hqzero,
        mem_definitions_join_comm (h.symm hp hq) hq hqzero hpzero⟩

theorem definitions_append_operation (p : Program) (o : Operation) :
    (p.append (.operation o)).definitions = p.definitions ++ [.operation o] := by
  simp [append, definitions]

end Program

open Program

namespace Query

/-! ### Outcomes -/

/-- Two outcomes that are both queries or both refusals. If they are queries, their scripts without
header and footer end in the lines of the given formulas, and have the same lines before these. -/
structure OnlyLastLineDiffers (first second : Except QueryError Query) (f g : Formula) : Prop where
  succeeds_iff : (∃ q, first = .ok q) ↔ ∃ q, second = .ok q
  lines_perm : ∀ q r, first = .ok q → second = .ok r → ∃ xs ys,
    q.lines .bare = .ok (xs ++ [Operation.line ⟨q.root, f⟩]) ∧
    r.lines .bare = .ok (ys ++ [Operation.line ⟨r.root, g⟩]) ∧ xs.Perm ys

theorem checkOperands_comm {operator : BinaryOperator} {a b : Query}
    (h : checkOperands operator a b = .ok ()) : checkOperands operator b a = .ok () := by
  rw [checkOperands_eq_ok_iff] at h ⊢
  exact fun kind hkind => (h kind hkind).symm

end Query

namespace Formed

variable {e f : Expression} {a b q : Query} {operator : BinaryOperator} {name : SetName}

/-- What is combined in one order can be combined in the other: the tests that a combination makes
are symmetric. -/
theorem exists_combineAs_comm (ha : Formed e a) (hb : Formed f b) {text : String}
    (h : ∃ q, Query.combineAs operator a b text = .ok q) :
    ∃ r, Query.combineAs operator b a text = .ok r := by
  obtain ⟨q, hq⟩ := h
  obtain ⟨name, hname, hq⟩ := bind_eq_ok_iff.mp hq
  obtain ⟨hkinds, hcompatible, hfree, -⟩ := ha.eq_extend_of_combine hb hq
  have hcompatible' := hcompatible.symm ha.wellFormed.nodup hb.wellFormed.nodup
  have hfree' : name ∉ (b.program.join a.program).names := by
    rwa [mem_names_join, or_comm, ← mem_names_join]
  have hcombine := hb.combine_eq ha (Query.checkOperands_comm hkinds) hcompatible' name
  rw [if_neg hfree'] at hcombine
  exact ⟨_, bind_eq_ok_iff.mpr ⟨name, hname, hcombine⟩⟩

/-- The script of a combination: the lines of the joined programs, and that of the operation. The
operation comes last because it was appended to the last list. -/
theorem lines_combine (ha : Formed e a) (hb : Formed f b)
    (h : Query.combine operator a b name = .ok q) :
    q.lines .bare = .ok ((a.program.join b.program).definitions.map Definition.line ++
      [Operation.line ⟨q.root, .binary operator a.root b.root⟩]) := by
  have hlines := Query.lines_eq_of_formed (ha.combine hb h) .bare
  obtain ⟨-, -, -, rfl⟩ := ha.eq_extend_of_combine hb h
  rw [hlines]
  simp [extend, definitions_append_operation, Definition.line, Definition.name, Settings.header,
    Settings.footer, Settings.bare]

end Formed

namespace Query

/-- **The order of a combination only changes the last line.** Success is the same both ways, and so
are all lines but the last one, as sets of lines. -/
theorem combineAs_comm {a b : Query} (ha : a.Reachable) (hb : b.Reachable)
    (hazero : a.program.NoNegativeZero) (hbzero : b.program.NoNegativeZero)
    (operator : BinaryOperator) (text : String) :
    OnlyLastLineDiffers (combineAs operator a b text) (combineAs operator b a text)
      (.binary operator a.root b.root) (.binary operator b.root a.root) := by
  obtain ⟨e, he⟩ := ha.exists_formed
  obtain ⟨f, hf⟩ := hb.exists_formed
  refine ⟨⟨he.exists_combineAs_comm hf, hf.exists_combineAs_comm he⟩, fun q r hq hr => ?_⟩
  obtain ⟨name, -, hq⟩ := bind_eq_ok_iff.mp hq
  obtain ⟨name', -, hr⟩ := bind_eq_ok_iff.mp hr
  obtain ⟨-, hcompatible, -, -⟩ := he.eq_extend_of_combine hf hq
  exact ⟨_, _, he.lines_combine hf hq, hf.lines_combine he hr,
    (perm_definitions_join hcompatible he.wellFormed.nodup hf.wellFormed.nodup hazero
      hbzero).map Definition.line⟩

/-- **The order of operands.** The union or difference of two queries under a caller's name can be
taken in either order or in none, and the order only changes the line of the operation itself. -/
theorem order_of_operands (a b : Query) (ha : a.Reachable) (hb : b.Reachable)
    (hazero : a.program.NoNegativeZero) (hbzero : b.program.NoNegativeZero) (text : String) :
    OnlyLastLineDiffers (a.unionAs b text) (b.unionAs a text)
      (.binary .union a.root b.root) (.binary .union b.root a.root) ∧
    OnlyLastLineDiffers (a.differenceAs b text) (b.differenceAs a text)
      (.binary .difference a.root b.root) (.binary .difference b.root a.root) :=
  ⟨combineAs_comm ha hb hazero hbzero .union text,
    combineAs_comm ha hb hazero hbzero .difference text⟩

/-- Both selections bring in the park, of different kinds; in either order the union has one area of
all kinds. -/
theorem order_of_operands_park :
    OnlyLastLineDiffers (.ok Park.both) (Park.ways.unionAs Park.nodes "both")
      (.binary .union ⟨"nodes"⟩ ⟨"ways"⟩) (.binary .union ⟨"ways"⟩ ⟨"nodes"⟩) :=
  (order_of_operands Park.nodes Park.ways ⟨_, Park.built_nodes⟩ ⟨_, Park.built_ways⟩ (by decide)
    (by decide) "both").1

end Query

end Overpass
