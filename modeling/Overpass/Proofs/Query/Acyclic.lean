import Overpass.Proofs.Program.KindSearch
import Overpass.Proofs.Query.Minimal

/-!
# References do not lead back

Names are chosen by the caller and may be used again in programs that are merged later, and the
search for the kind of a set follows names. It ends because references only lead to definitions that
are printed earlier: no insertion closes a circle, neither one by which a query is built nor one on
the way of a merge, whether or not the merge succeeds in the end.

## Main Definitions

* `Program.KindsSettled`: whether no references lead back and every search for a kind ends

## Main Statements

* `Program.WellFormed.idxOf_lt`: references lead to earlier definitions
* `Query.Inserts.extensible`: the program that a new definition is inserted into can grow by it
* `Program.kind_search_ends`: the search ends in all programs that a caller can obtain
-/

namespace Overpass

open Program

namespace Program

variable {p : Program} {m n : SetName}

/-! ### Backward references -/

/-- A definition is printed where its name stands among the names. So the order of a script can be
read off the names alone. -/
theorem idxOf_names (hp : p.names.Nodup) {i : ℕ} {d : Definition}
    (hd : p.definitions[i]? = some d) : p.names.idxOf d.name = i := by
  have hname : p.names[i]? = some d.name := by rw [names, List.getElem?_map, hd, Option.map_some]
  obtain ⟨hi, hget⟩ := List.getElem?_eq_some_iff.mp hname
  rw [← hget, hp.idxOf_getElem]

/-- References lead to definitions that are printed earlier. The place among the printed names is
therefore a measure that falls along references. -/
theorem WellFormed.idxOf_lt (h : p.WellFormed) (hmn : p.Refers m n) :
    p.names.idxOf n < p.names.idxOf m := by
  obtain ⟨d, hd, rfl, hn⟩ := hmn
  obtain ⟨i, hi⟩ := List.mem_iff_getElem?.mp hd
  rcases h.chained.exists_earlier hi hn with hnil | ⟨j, hj, e, he, rfl⟩
  · cases hnil
  · rw [idxOf_names h.nodup hi, idxOf_names h.nodup he]
    exact hj

/-- It falls along chains of references too, and so none of them comes back to where it started. -/
theorem WellFormed.idxOf_lt_of_transGen (h : p.WellFormed) (hmn : Relation.TransGen p.Refers m n) :
    p.names.idxOf n < p.names.idxOf m := by
  induction hmn with
  | single hstep => exact h.idxOf_lt hstep
  | tail _ hstep ih => exact (h.idxOf_lt hstep).trans ih

/-! ### Searches that end -/

/-- Whether references lead nowhere back, so that every search for a kind ends. -/
structure KindsSettled (p : Program) : Prop where
  /-- No name refers to itself, not even through the definitions of other names. -/
  acyclic : ∀ n, ¬ Relation.TransGen p.Refers n n
  /-- From every name, bound or not, the search ends, and what it finds is the kind of the name. -/
  findsKind_iff : ∀ n kind, p.FindsKind n kind ↔ kind = p.kindOf n
  /-- It does not follow more references in a row than there are operations. -/
  kindWithin_eq : ∀ n fuel, p.operations.length < fuel → p.kindWithin fuel n = some (p.kindOf n)

/-- In a well-formed program the search for a kind ends for every name, because no chain of
references is a circle. -/
theorem WellFormed.kindsSettled (h : p.WellFormed) : p.KindsSettled where
  acyclic _ hcycle := lt_irrefl _ (h.idxOf_lt_of_transGen hcycle)
  findsKind_iff n kind := by
    have hfinds : p.FindsKind n (p.kindOf n) :=
      findsKind_of_kindWithin (h.kindWithin_eq_kindOf n (Nat.lt_succ_self _))
    exact ⟨fun hkind => hkind.unique hfinds, fun heq => heq ▸ hfinds⟩
  kindWithin_eq n _ := h.kindWithin_eq_kindOf n

end Program

/-! ### Insertions -/

/-- The program that a new definition is inserted into can grow by it if its name is free: what it
refers to was the root of an operand. -/
theorem Query.Inserts.extensible {p : Program} {d : Definition} (h : Query.Inserts p d)
    (hfree : d.name ∉ p.names) : p.Extensible d := by
  cases h with
  | selection hplace hresolve =>
      rcases Place.eq_of_resolve_eq_ok hresolve with ⟨source, hsource, hbinding, hresolved⟩ |
        ⟨region, -, hshared | hinline⟩
      · obtain ⟨e, he⟩ := (hplace source hsource).exists_formed
        cases hresolved
        have hroot := he.root_mem_selection he.wellFormed hbinding
        exact Formed.extensible_within he.wellFormed hroot hfree
      · cases hshared
        exact Formed.extensible_shared fun heq => hfree (List.mem_singleton.mpr heq)
      · cases hinline
        exact Formed.extensible_inline
  | binary ha hb hmerge =>
      obtain ⟨e, he⟩ := ha.exists_formed
      obtain ⟨f, hf⟩ := hb.exists_formed
      obtain ⟨hcompatible, rfl⟩ := (merge_eq_ok_iff _ hf.wellFormed.nodup).mp hmerge
      exact Formed.extensible_binary he hf he.wellFormed hf.wellFormed hcompatible hfree
  | recurse ha =>
      obtain ⟨e, he⟩ := ha.exists_formed
      exact he.extensible_recurse he.wellFormed hfree

/-- Inserting the definition of a call keeps a program well-formed, in the middle of a call as well
as at its end. -/
theorem Query.Inserts.wellFormed_of_insert {p grown : Program} {d : Definition}
    (h : Query.Inserts p d) (hinsert : p.insert d = .ok grown) : grown.WellFormed := by
  rw [insert_eq_of_not_absorbs h.not_absorbs] at hinsert
  split_ifs at hinsert with hbound
  cases hinsert
  exact (h.extensible hbound).wellFormed_extend

/-- **The search for a kind ends**, from every name, bound or not, since references do not lead
back: not in any program that a caller can obtain, not in anything that a merge of two of them comes
to, one definition after the other, and not after any insertion by which a query is built. -/
theorem Program.kind_search_ends :
    (∀ p : Program, p.Reachable → p.KindsSettled) ∧
    (∀ p q : Program, p.Reachable → q.Reachable → ∀ before, before <+: q.definitions →
      ∀ grown, before.foldlM insert p = .ok grown → grown.KindsSettled) ∧
    ∀ (p : Program) (d : Definition), Query.Inserts p d →
      ∀ grown, p.insert d = .ok grown → grown.KindsSettled := by
  refine ⟨fun p hp => hp.wellFormed.kindsSettled, ?_, ?_⟩
  · intro p q hp hq before hbefore grown h
    exact (hp.wellFormed.foldlM_insert hq.wellFormed hbefore h).kindsSettled
  · intro p d h grown hinsert
    exact (h.wellFormed_of_insert hinsert).kindsSettled

/-- The union in a park mixes kinds, and what is not in the park has none. The ways of the park can
take over the area and the nodes before the ways and the union follow, and the union can be followed
upwards. -/
theorem Program.kind_search_ends_park :
    Park.both.program.FindsKind ⟨"both"⟩ none ∧ Park.both.program.FindsKind ⟨"nodes"⟩ (some .node) ∧
    Park.both.program.FindsKind ⟨"elsewhere"⟩ none ∧
    (∃ grown, (Park.both.program.definitions.take 2).foldlM insert Park.ways.program = .ok grown ∧
      grown.size = 3 ∧ grown.KindsSettled) ∧
    ∃ grown, Park.both.program.insert (.operation ⟨⟨"up"⟩, .recurse .up ⟨"both"⟩⟩) = .ok grown ∧
      grown.size = 5 ∧ grown.KindsSettled := by
  have hways : Park.ways.program.Reachable := .ofQuery ⟨_, Park.built_ways⟩
  have hboth : Park.both.program.Reachable := .ofQuery ⟨_, Park.built_both⟩
  have hup : Query.Inserts Park.both.program (.operation ⟨⟨"up"⟩, .recurse .up ⟨"both"⟩⟩) :=
    .recurse (a := Park.both) ⟨_, Park.built_both⟩
  obtain ⟨hreachable, hmerge, hinsert⟩ := kind_search_ends
  have hfinds := (hreachable _ hboth).findsKind_iff
  exact ⟨(hfinds _ _).mpr rfl, (hfinds _ _).mpr rfl, (hfinds _ _).mpr rfl,
    ⟨_, rfl, rfl, hmerge _ _ hways hboth _ (List.take_prefix 2 _) _ rfl⟩,
    ⟨_, rfl, rfl, hinsert _ _ hup _ rfl⟩⟩

end Overpass
