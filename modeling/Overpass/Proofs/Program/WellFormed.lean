import Overpass.Proofs.Program.Merge

/-!
# Well-formed programs

A well-formed program binds no name twice and refers only backwards: a selection to areas and to
selections that stand before it, an operation to selections and to operations that stand before it.
Appending a supported definition under a free name keeps this, and so does joining two compatible
programs, although the join interleaves their two orders. The definitions that are printed first are
well-formed on their own, so a merge that has come to any of the definitions of the second program
has joined two well-formed programs.

## Main Definitions

* `Chained`: each item of a list refers only to known names and to items before it
* `Program.WellFormed`: no name is bound twice, and all references lead backwards
* `Program.Supports`: whether the references of a definition are bound to the right sorts
* `Program.take`: the program of the definitions that are printed first

## Main Statements

* `Program.WellFormed.append`, `Program.WellFormed.join`: the two ways in which programs grow
* `Program.WellFormed.supports`: every definition of a well-formed program is supported by it
* `Program.WellFormed.foldlM_insert`: what a merge has come to is well-formed
-/

namespace Overpass

/-! ### Chains of references -/

section Chained

variable {α : Type} {name : α → SetName} {references : α → List SetName}
variable {known known' : List SetName} {xs ys : List α}

/-- Each item refers only to names that are known and to names of items that stand before it. -/
def Chained (name : α → SetName) (references : α → List SetName) : List SetName → List α → Prop
  | _, [] => True
  | known, x :: rest =>
      (∀ n ∈ references x, n ∈ known) ∧ Chained name references (name x :: known) rest

theorem Chained.mono (h : Chained name references known xs) (hsub : known ⊆ known') :
    Chained name references known' xs := by
  induction xs generalizing known known' with
  | nil => trivial
  | cons x rest ih =>
      exact ⟨fun n hn => hsub (h.1 n hn), ih h.2 (List.cons_subset_cons _ hsub)⟩

/-- Two lists after one another form a chain if the first does, and if the second does once the
names of the first are known. This is the step by which programs are extended. -/
theorem chained_append :
    Chained name references known (xs ++ ys) ↔
      Chained name references known xs ∧
        Chained name references (xs.map name ++ known) ys := by
  induction xs generalizing known with
  | nil => simp [Chained]
  | cons x rest ih =>
      rw [List.cons_append, Chained, ih, Chained, and_assoc]
      refine and_congr_right fun _ => and_congr_right fun _ => ?_
      constructor <;> refine fun h => h.mono fun n hn => ?_
      all_goals
        simp only [List.map_cons, List.cons_append, List.mem_append, List.mem_cons] at hn ⊢
        tauto

/-- The beginnings of a chain are chains, since items refer backwards only. -/
theorem Chained.take (h : Chained name references known xs) (count : ℕ) :
    Chained name references known (xs.take count) := by
  rw [← List.take_append_drop count xs] at h
  exact (chained_append.mp h).1

/-- Whether a list is a chain depends on its names and references only, and not on what carries
them. So what holds of definitions holds of their signatures and of the statements of their
lines. -/
theorem chained_map {β : Type} {f : β → α} {zs : List β} :
    Chained name references known (zs.map f) ↔
      Chained (fun z => name (f z)) (fun z => references (f z)) known zs := by
  induction zs generalizing known with
  | nil => exact Iff.rfl
  | cons z rest ih => rw [List.map_cons, Chained, Chained, ih]

/-- Items that refer to nothing form a chain in any order. So the areas of a program may stand in
whatever order a merge leaves them. -/
theorem chained_of_references_eq_nil (h : ∀ x ∈ xs, references x = []) :
    Chained name references known xs := by
  induction xs generalizing known with
  | nil => trivial
  | cons x rest ih =>
      refine ⟨?_, ih fun y hy => h y (List.mem_cons_of_mem x hy)⟩
      rw [h x List.mem_cons_self]
      exact fun n hn => absurd hn List.not_mem_nil

/-- Leaving out items whose names are known otherwise keeps a chain. This is what happens to the
right side of a merge: what is left out is bound on the left side, which is printed before. -/
theorem Chained.filter {keep : α → Bool} (h : Chained name references known xs)
    (hsub : known ⊆ known') (hdrop : ∀ x ∈ xs, keep x = false → name x ∈ known') :
    Chained name references known' (xs.filter keep) := by
  induction xs generalizing known known' with
  | nil => trivial
  | cons x rest ih =>
      have hrest : ∀ y ∈ rest, keep y = false → name y ∈ known' :=
        fun y hy => hdrop y (List.mem_cons_of_mem x hy)
      cases hx : keep x with
      | true =>
          rw [List.filter_cons_of_pos hx]
          exact ⟨fun n hn => hsub (h.1 n hn), ih h.2 (List.cons_subset_cons _ hsub)
            fun y hy hkeep => List.mem_cons_of_mem _ (hrest y hy hkeep)⟩
      | false =>
          -- Later items may refer to the one that is left out, so its name moves to the known ones.
          rw [List.filter_cons_of_neg (by simp [hx])]
          exact ih h.2 (List.cons_subset.mpr ⟨hdrop x List.mem_cons_self hx, hsub⟩) hrest

/-- In a chain a reference leads to a known name or to an item at an earlier position. Positions are
what lines are counted by. -/
theorem Chained.exists_earlier (h : Chained name references known xs) {i : ℕ} {x : α}
    (hx : xs[i]? = some x) {n : SetName} (hn : n ∈ references x) :
    n ∈ known ∨ ∃ j < i, ∃ y, xs[j]? = some y ∧ name y = n := by
  induction xs generalizing known i with
  | nil => simp at hx
  | cons y rest ih =>
      cases i with
      | zero =>
          obtain rfl : y = x := by simpa using hx
          exact Or.inl (h.1 n hn)
      | succ i =>
          rcases ih h.2 (by simpa using hx) with hknown | ⟨j, hj, z, hz, hname⟩
          · rcases List.mem_cons.mp hknown with rfl | hknown
            · exact Or.inr ⟨0, by omega, y, rfl, rfl⟩
            · exact Or.inl hknown
          · exact Or.inr ⟨j + 1, by omega, z, by simpa using hz, hname⟩

/-- What an item of a chain refers to is known from the start or named in the chain. The order of
the items is forgotten here. -/
theorem Chained.mem_of_mem (h : Chained name references known xs) {x : α} (hx : x ∈ xs)
    {n : SetName} (hn : n ∈ references x) : n ∈ known ∨ n ∈ xs.map name := by
  obtain ⟨i, hi⟩ := List.mem_iff_getElem?.mp hx
  refine (h.exists_earlier hi hn).imp_right ?_
  rintro ⟨j, -, y, hy, rfl⟩
  exact List.mem_map_of_mem (List.mem_of_getElem? hy)

/-- Along a chain a property of names spreads from the known ones to all items: it holds of an item
as soon as it holds of what the item refers to. -/
theorem Chained.induction {motive : SetName → Prop} (h : Chained name references known xs)
    (hknown : ∀ n ∈ known, motive n)
    (hstep : ∀ x ∈ xs, (∀ n ∈ references x, motive n) → motive (name x)) :
    ∀ x ∈ xs, motive (name x) := by
  induction xs generalizing known with
  | nil => exact fun x hx => absurd hx List.not_mem_nil
  | cons y rest ih =>
      have hy : motive (name y) := hstep y List.mem_cons_self fun n hn => hknown n (h.1 n hn)
      have hrest : ∀ x ∈ rest, motive (name x) :=
        ih h.2 (List.forall_mem_cons.mpr ⟨hy, hknown⟩) fun x hx =>
          hstep x (List.mem_cons_of_mem y hx)
      exact List.forall_mem_cons.mpr ⟨hy, hrest⟩

end Chained

namespace Program

variable {p q : Program} {d e : Definition} {n : SetName} {b : Binding}

/-- No name is bound twice, and every reference leads to the right sort of definition and, within a
sort, to one that stands before. -/
structure WellFormed (p : Program) : Prop where
  /-- Names are bound once in the three lists together. -/
  nodup : p.names.Nodup
  /-- Selections refer to areas and to earlier selections. -/
  selections : Chained Selection.name (fun s => s.scope.references) (p.namesOf .area) p.selections
  /-- Operations refer to selections and to earlier operations. -/
  operations :
    Chained Operation.name (fun o => o.formula.references) (p.namesOf .selection) p.operations

/-- Whether every reference of a definition is bound to a sort that it may refer to. -/
def Supports (p : Program) : Definition → Prop
  | .area _ => True
  | .selection s =>
      ∀ n ∈ s.scope.references, n ∈ p.namesOf .area ∨ n ∈ p.namesOf .selection
  | .operation o =>
      ∀ n ∈ o.formula.references, n ∈ p.namesOf .selection ∨ n ∈ p.namesOf .operation

/-- What a definition that is supported refers to is bound in the program, as a set that it may
refer to. -/
theorem Supports.mem_names (h : p.Supports d) (hn : n ∈ d.references) : n ∈ p.names := by
  cases d with
  | area a => cases hn
  | selection s => exact (h n hn).elim mem_names_of_mem_namesOf mem_names_of_mem_namesOf
  | operation o => exact (h n hn).elim mem_names_of_mem_namesOf mem_names_of_mem_namesOf

theorem wellFormed_empty : empty.WellFormed := ⟨List.nodup_nil, trivial, trivial⟩

/-- A well-formed program supports all of its definitions: a selection refers to areas and
selections in it, and an operation to selections and operations. -/
theorem WellFormed.supports (h : p.WellFormed) (hd : d ∈ p.definitions) : p.Supports d := by
  cases d with
  | area a => trivial
  | selection s =>
      exact fun n hn => h.selections.mem_of_mem (selection_mem_definitions.mp hd) hn
  | operation o =>
      exact fun n hn => h.operations.mem_of_mem (operation_mem_definitions.mp hd) hn

/-- In a well-formed program every reference is bound. What is forgotten here is that it is bound
earlier. -/
theorem WellFormed.closed (h : p.WellFormed) {x : Signature} (hx : x ∈ p.signatures)
    (hn : n ∈ x.references) : n ∈ p.names := by
  obtain ⟨d, hd, rfl⟩ := mem_signatures.mp hx
  exact (h.supports hd).mem_names hn

/-- The definitions of a well-formed program, in the order in which they are printed, form a single
chain that starts from nothing. -/
theorem WellFormed.chained (h : p.WellFormed) :
    Chained Definition.name Definition.references [] p.definitions := by
  have hareas : (p.areas.map Definition.area).map Definition.name = p.namesOf .area := by
    simp [namesOf, Function.comp_def, Definition.name]
  have hselections : (p.selections.map Definition.selection).map Definition.name =
      p.namesOf .selection := by
    simp [namesOf, Function.comp_def, Definition.name]
  refine chained_append.mpr ⟨chained_append.mpr ⟨?_, chained_map.mpr ?_⟩, chained_map.mpr ?_⟩
  · refine chained_of_references_eq_nil fun d hd => ?_
    obtain ⟨a, -, rfl⟩ := List.mem_map.mp hd
    rfl
  · rw [hareas, List.append_nil]
    exact h.selections
  · rw [List.map_append, hareas, hselections, List.append_nil]
    exact h.operations.mono (List.subset_append_right _ _)

/-! ### Appending -/

/-- A definition of a new name can be appended without binding a name twice. -/
theorem nodup_names_append (hp : p.names.Nodup) (hfree : d.name ∉ p.names) :
    (p.append d).names.Nodup := by
  obtain ⟨hnodup, hone⟩ := names_nodup_iff.mp hp
  have hnew : ∀ b, d.name ∉ p.namesOf b := fun b hb => hfree (mem_names_of_mem_namesOf hb)
  refine names_nodup_iff.mpr ⟨fun b => ?_, fun b c n hb hc => ?_⟩
  · rw [namesOf_append]
    split_ifs
    · exact (hnodup b).append (List.nodup_singleton _) (by simpa using hnew b)
    · simpa using hnodup b
  · rcases mem_namesOf_append.mp hb with hb | ⟨rfl, rfl⟩ <;>
      rcases mem_namesOf_append.mp hc with hc | ⟨hd, hname⟩
    · exact hone b c n hb hc
    · exact absurd (hname ▸ hb) (hnew b)
    · exact absurd hc (hnew c)
    · exact hd

/-- Appending a supported definition under a free name keeps a program well-formed. The chain of its
sort grows at the end, and the other two stay as they are. -/
theorem WellFormed.append (hp : p.WellFormed) (hfree : d.name ∉ p.names) (hd : p.Supports d) :
    (p.append d).WellFormed := by
  refine ⟨nodup_names_append hp.nodup hfree, ?_, ?_⟩
  · cases d with
    | area a => exact hp.selections.mono (by simp [namesOf, Program.append])
    | operation o => exact hp.selections
    | selection s =>
        refine chained_append.mpr ⟨hp.selections, fun n hn => ?_, trivial⟩
        exact List.mem_append.mpr (hd n hn).symm
  · cases d with
    | area a => exact hp.operations
    | selection s => exact hp.operations.mono (by simp [namesOf, Program.append])
    | operation o =>
        refine chained_append.mpr ⟨hp.operations, fun n hn => ?_, trivial⟩
        exact List.mem_append.mpr (hd n hn).symm

/-! ### Joining -/

/-- Compatible programs give common names the same signatures. So a name that both bind is bound by
the same sort, from the same references, whichever of the two copies is kept. -/
theorem Compatible.mem_signatures (h : p.Compatible q) {x : Signature} (hx : x ∈ q.signatures)
    (hname : x.name ∈ p.names) : x ∈ p.signatures := by
  obtain ⟨d, hd, rfl⟩ := Program.mem_signatures.mp hx
  obtain ⟨e, he, hagrees⟩ := (h d hd).exists_agrees hname
  exact hagrees.signature_eq ▸ signature_mem_signatures he

/-- A name that compatible programs have in common is bound by the same sort in both. This is where
a name that is an area here and a selection there would be refused. -/
theorem Compatible.mem_namesOf (h : p.Compatible q) (hq : n ∈ q.namesOf b) (hp : n ∈ p.names) :
    n ∈ p.namesOf b := by
  obtain ⟨x, hx, rfl, rfl⟩ := mem_namesOf_iff_signatures.mp hq
  exact mem_namesOf_iff_signatures.mpr ⟨x, h.mem_signatures hx hp, rfl, rfl⟩

/-- A join of compatible programs has all signatures of both, without the condition that a join has
in general. -/
theorem Compatible.mem_signatures_join (h : p.Compatible q) {x : Signature} :
    x ∈ (p.join q).signatures ↔ x ∈ p.signatures ∨ x ∈ q.signatures := by
  rw [Program.mem_signatures_join]
  have := h.mem_signatures (x := x)
  tauto

/-- The signatures of the left side stay in a join. They are those that the join begins with. -/
theorem Compatible.signatures_subset_left (h : p.Compatible q) :
    ∀ x ∈ p.signatures, x ∈ (p.join q).signatures :=
  fun _ hx => h.mem_signatures_join.mpr (Or.inl hx)

/-- The signatures of the right side are in a join too: those that are left out agree with what is
there. -/
theorem Compatible.signatures_subset_right (h : p.Compatible q) :
    ∀ x ∈ q.signatures, x ∈ (p.join q).signatures :=
  fun _ hx => h.mem_signatures_join.mpr (Or.inr hx)

/-- In a join of compatible programs a sort binds exactly the names that it binds in one of the
two. -/
theorem Compatible.mem_namesOf_join (h : p.Compatible q) :
    n ∈ (p.join q).namesOf b ↔ n ∈ p.namesOf b ∨ n ∈ q.namesOf b := by
  rw [Program.mem_namesOf_join]
  have := h.mem_namesOf (n := n) (b := b)
  tauto

/-- A join binds no name twice, since of the right side only new names are taken. -/
theorem nodup_names_join (hp : p.names.Nodup) (hq : q.names.Nodup) :
    (p.join q).names.Nodup := by
  obtain ⟨hpnodup, hpone⟩ := names_nodup_iff.mp hp
  obtain ⟨hqnodup, hqone⟩ := names_nodup_iff.mp hq
  refine names_nodup_iff.mpr ⟨fun b => ?_, fun b c n hb hc => ?_⟩
  · rw [namesOf_join]
    refine (hpnodup b).append ((hqnodup b).filter _) fun n hn hfilter => ?_
    exact absurd (mem_names_of_mem_namesOf hn) (by simpa using (List.mem_filter.mp hfilter).2)
  · rcases Program.mem_namesOf_join.mp hb with hb | ⟨hb, hbfree⟩ <;>
      rcases Program.mem_namesOf_join.mp hc with hc | ⟨hc, hcfree⟩
    · exact hpone b c n hb hc
    · exact absurd (mem_names_of_mem_namesOf hb) hcfree
    · exact absurd (mem_names_of_mem_namesOf hc) hbfree
    · exact hqone b c n hb hc

/-- Joining two compatible well-formed programs gives a well-formed program: what the second program
refers to is either new as well, and then stands before, or stands in the first program. -/
theorem WellFormed.join (hp : p.WellFormed) (hq : q.WellFormed) (h : p.Compatible q) :
    (p.join q).WellFormed := by
  refine ⟨nodup_names_join hp.nodup hq.nodup, ?_, ?_⟩
  · refine chained_append.mpr ⟨hp.selections.mono fun n hn => ?_, hq.selections.filter ?_ ?_⟩
    · exact h.mem_namesOf_join.mpr (Or.inl hn)
    · exact fun n hn => List.mem_append_right _ (h.mem_namesOf_join.mpr (Or.inr hn))
    -- What is left out of the right side has a name that the left side binds, to a selection too.
    · intro s hs hdrop
      refine List.mem_append_left _ (h.mem_namesOf (b := .selection) ?_ (by simpa using hdrop))
      exact name_mem_namesOf (selection_mem_definitions.mpr hs)
  · refine chained_append.mpr ⟨hp.operations.mono fun n hn => ?_, hq.operations.filter ?_ ?_⟩
    · exact h.mem_namesOf_join.mpr (Or.inl hn)
    · exact fun n hn => List.mem_append_right _ (h.mem_namesOf_join.mpr (Or.inr hn))
    · intro o ho hdrop
      refine List.mem_append_left _ (h.mem_namesOf (b := .operation) ?_ (by simpa using hdrop))
      exact name_mem_namesOf (operation_mem_definitions.mpr ho)

/-! ### Beginnings -/

/-- The program of the definitions that a program prints first. It may end in any of the three
lists. -/
def take (p : Program) (count : ℕ) : Program where
  areas := p.areas.take count
  selections := p.selections.take (count - p.areas.length)
  operations := p.operations.take (count - p.areas.length - p.selections.length)

theorem definitions_take (p : Program) (count : ℕ) :
    (p.take count).definitions = p.definitions.take count := by
  simp [take, definitions, List.take_append, List.map_take, Nat.sub_sub]

/-- A sort begins only when the sorts before it are complete, so all references are kept. -/
theorem WellFormed.take (h : p.WellFormed) (count : ℕ) : (p.take count).WellFormed := by
  have hareas : (p.take count).areas = p.areas ∨ (p.take count).selections = [] := by
    rcases le_total p.areas.length count with hle | hle
    · exact Or.inl (List.take_of_length_le hle)
    · exact Or.inr (by simp [Program.take, hle])
  have hselections : (p.take count).selections = p.selections ∨ (p.take count).operations = [] := by
    rcases le_total p.selections.length (count - p.areas.length) with hle | hle
    · exact Or.inl (List.take_of_length_le hle)
    · exact Or.inr (by simp [Program.take, hle])
  refine ⟨?_, ?_, ?_⟩
  · rw [names, definitions_take, List.map_take]
    exact h.nodup.sublist (List.take_sublist _ _)
  · rcases hareas with hall | hnil
    · rw [namesOf, hall]
      exact h.selections.take _
    · rw [hnil]
      trivial
  · rcases hselections with hall | hnil
    · rw [namesOf, hall]
      exact h.operations.take _
    · rw [hnil]
      trivial

/-- What a merge has come to when some of the definitions of the second program are inserted is
well-formed, whatever becomes of the definitions that follow. -/
theorem WellFormed.foldlM_insert (hp : p.WellFormed) (hq : q.WellFormed) {before : List Definition}
    (hbefore : before <+: q.definitions) {grown : Program}
    (h : before.foldlM insert p = .ok grown) : grown.WellFormed := by
  rw [List.prefix_iff_eq_take.mp hbefore, ← definitions_take] at h
  have htake := hq.take before.length
  obtain ⟨hcompatible, rfl⟩ := (merge_eq_ok_iff p htake.nodup).mp h
  exact hp.join htake hcompatible

end Program

end Overpass
