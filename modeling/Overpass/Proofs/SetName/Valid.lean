import Overpass.Proofs.Query.Call
import Overpass.Proofs.SetName.Generated

/-!
# Valid names

Names are made in three ways: a caller gives one, which is checked, or one is generated from a
number, or from the key of a region. All three have the syntax of set names. So if the regions that
come in have valid names, no call ever binds a name that is not valid.

## Main Definitions

* `SetName.IsValid`: whether a name has the syntax of set names
* `Program.NamesValid`: whether a program binds valid names only

## Main Statements

* `SetName.isValid_numbered`, `SetName.isValid_ofKey`, `SetName.isValid_of_parse_eq_ok`: names are
  valid however they are made
* `Call.forall_names`: where the names that a call binds come from
* `Call.namesValid`: calls bind valid names
-/

namespace Overpass

open Program

namespace SetName

/-- Whether a name has the syntax of set names. Names of callers and generated names do. -/
def IsValid (name : SetName) : Prop := isWellFormed name.text.toList = true

instance (name : SetName) : Decidable name.IsValid :=
  inferInstanceAs (Decidable (isWellFormed name.text.toList = true))

theorem isPart_of_isStart {c : Char} (h : isStart c = true) : isPart c = true := by
  rw [isStart, Bool.or_eq_true] at h
  rw [isPart, Char.isAlphanum, Bool.or_eq_true, Bool.or_eq_true]
  exact h.imp_left Or.inl

/-- All characters of a valid name may stand inside of names, the first one included, so a reader
that takes such characters takes all of the name. -/
theorem IsValid.isPart {name : SetName} (h : name.IsValid) :
    ∀ c ∈ name.text.toList, SetName.isPart c = true := by
  rw [IsValid] at h
  generalize name.text.toList = cs at h ⊢
  cases cs with
  | nil => cases h
  | cons c rest =>
      obtain ⟨hstart, hrest⟩ := Bool.and_eq_true_iff.mp h
      exact List.forall_mem_cons.mpr ⟨isPart_of_isStart hstart, List.all_eq_true.mp hrest⟩

theorem isPart_of_isDigit {c : Char} (h : c.isDigit = true) : SetName.isPart c = true := by
  rw [SetName.isPart, Char.isAlphanum, h, Bool.or_true, Bool.true_or]

theorem isPart_of_isHexDigit {c : Char} (h : isHexDigit c = true) : SetName.isPart c = true := by
  rw [isHexDigit, Bool.or_eq_true] at h
  rcases h with h | h
  · exact isPart_of_isDigit h
  -- The letters up to `f` are lower-case letters.
  · obtain ⟨hfrom, hto⟩ : 'a' ≤ c ∧ c ≤ 'f' := by simpa using h
    have hle : c ≤ 'z' := Char.le_trans hto (by decide)
    have hlower : c.isLower = true :=
      Bool.and_eq_true_iff.mpr ⟨decide_eq_true hfrom, decide_eq_true hle⟩
    have halpha : c.isAlpha = true := Bool.or_eq_true_iff.mpr (Or.inr hlower)
    rw [SetName.isPart, Char.isAlphanum, halpha, Bool.true_or, Bool.true_or]

/-- Generated names are valid, since digits may stand inside of names. -/
theorem isValid_numbered (n : ℕ) : (numbered n).IsValid := by
  have hdigits : (Nat.toDigits 10 n).all SetName.isPart = true := by
    rw [List.all_eq_true]
    exact fun c hc => isPart_of_isDigit (Nat.isDigit_of_mem_toDigits (by decide) (by decide) hc)
  rw [IsValid, numbered, String.toList_ofList, isWellFormed, List.all_cons, hdigits]
  rfl

theorem isValid_ofKey (key : String) : (ofKey key).IsValid := by
  have hdigits : (Digest.hex (Digest.ofText key)).all SetName.isPart = true := by
    rw [List.all_eq_true]
    exact fun c hc => isPart_of_isHexDigit (isHexDigit_of_mem_hex hc)
  rw [IsValid, ofKey, String.toList_ofList, isWellFormed, List.all_cons, hdigits]
  rfl

/-- What a caller gives is checked before it becomes a name, so that no query has a name that is not
valid. -/
theorem isValid_of_parse_eq_ok {text : String} {name : SetName} (h : parse text = .ok name) :
    name.IsValid := by
  obtain ⟨hform, -, rfl⟩ := ofText?_eq_some_iff.mp (parse_eq_ok_iff.mp h)
  exact hform

end SetName

/-- Whether all names that a program binds are valid. What it refers to is bound, in a well-formed
program, and so is valid too. -/
def Program.NamesValid (p : Program) : Prop := ∀ n ∈ p.names, n.IsValid

instance (p : Program) : Decidable p.NamesValid :=
  inferInstanceAs (Decidable (∀ n ∈ p.names, n.IsValid))

variable {q : Query} {supply rest : NameSupply}

/-- The root of a selection has the name that the selection is given. -/
theorem Draft.root_of_finish {resolver : Resolver} {kind : ElementKind} {tags : TagFilter}
    {place : Place} {name : SetName} (h : Draft.finish resolver kind tags place name = .ok q) :
    q.root = name := by
  obtain ⟨resolved, -, h⟩ := bind_eq_ok_iff.mp h
  obtain ⟨extended, -, h⟩ := bind_eq_ok_iff.mp h
  cases h
  rfl

/-- A task binds its name, those that its operands bind, and that of the region it brings in. There
are no other names in its result. -/
theorem Task.mem_names_of_perform {task : Task} {name n : SetName}
    (hoperands : ∀ o ∈ task.operands, ∃ e, Formed e o) (h : task.perform name = .ok q)
    (hn : n ∈ q.program.names) :
    n = name ∨ (∃ o ∈ task.operands, n ∈ o.program.names) ∨
      ∃ region, task.region? = some region ∧ n = region.name := by
  cases task with
  | select kind tags place resolver =>
      obtain ⟨⟨program, scope⟩, hresolve, -⟩ := bind_eq_ok_iff.mp h
      rcases Place.eq_of_resolve_eq_ok hresolve with ⟨source, rfl, -⟩ | ⟨region, hregion, -⟩
      · obtain ⟨e, he⟩ := hoperands source List.mem_cons_self
        obtain ⟨-, -, rfl⟩ := he.eq_extend_of_finish h
        rcases mem_names_append.mp hn with hn | rfl
        · exact Or.inr (Or.inl ⟨source, List.mem_cons_self, hn⟩)
        · exact Or.inl rfl
      · have hroot := Draft.root_of_finish h
        cases Formed.finish_inRegion hregion h with
        | shared =>
            rcases mem_names_append.mp hn with hn | rfl
            · exact Or.inr (Or.inr ⟨region, hregion, List.mem_singleton.mp hn⟩)
            · exact Or.inl hroot
        | inline => exact Or.inl ((List.mem_singleton.mp hn).trans hroot)
  | combine operator a b =>
      obtain ⟨e, he⟩ := hoperands a List.mem_cons_self
      obtain ⟨f, hf⟩ := hoperands b (List.mem_cons_of_mem a List.mem_cons_self)
      obtain ⟨-, -, -, rfl⟩ := he.eq_extend_of_combine hf h
      rcases mem_names_append.mp hn with hn | rfl
      · rcases mem_names_join.mp hn with hn | hn
        · exact Or.inr (Or.inl ⟨a, List.mem_cons_self, hn⟩)
        · exact Or.inr (Or.inl ⟨b, List.mem_cons_of_mem a List.mem_cons_self, hn⟩)
      · exact Or.inl rfl
  | recurse direction source =>
      obtain ⟨e, he⟩ := hoperands source List.mem_cons_self
      obtain ⟨-, rfl⟩ := he.eq_extend_of_follow h
      rcases mem_names_append.mp hn with hn | rfl
      · exact Or.inr (Or.inl ⟨source, List.mem_cons_self, hn⟩)
      · exact Or.inl rfl

/-- Every name that a call binds comes from somewhere: from an operand, from the region that comes
in, from the caller or from the supply. -/
theorem Call.forall_names {P : SetName → Prop} {call : Call}
    (hoperands : ∀ o ∈ call.operands, ∃ e, Formed e o)
    (hbound : ∀ o ∈ call.operands, ∀ n ∈ o.program.names, P n)
    (hregion : ∀ region, call.region? = some region → P region.name)
    (hgiven : ∀ text name, SetName.parse text = .ok name → P name)
    (hgenerated : ∀ name, supply.Gives rest name → P name)
    (h : call.run.runOn supply = (.ok q, rest)) :
    ∀ n ∈ q.program.names, P n := by
  refine (Call.of_tasks (P := fun q => (∃ e, Formed e q) ∧ ∀ n ∈ q.program.names, P n)
    (fun o ho => ⟨hoperands o ho, hbound o ho⟩) (fun task name q ho hbrought hname h => ?_) h).2
  have hformed : ∀ o ∈ task.operands, ∃ e, Formed e o := fun o hmem => (ho o hmem).1
  refine ⟨Task.exists_formed hformed h, fun n hn => ?_⟩
  rcases task.mem_names_of_perform hformed h hn with rfl | ⟨o, hmem, hn⟩ | ⟨region, hsome, rfl⟩
  · rcases hname with ⟨text, hparse⟩ | hgives
    · exact hgiven text n hparse
    · exact hgenerated n hgives
  · exact (ho o hmem).2 n hn
  · exact hregion region (hbrought region hsome)

/-- **Calls bind valid names** if their operands do and the region that comes in has one. Given
names are checked, and generated ones are valid by their form. -/
theorem Call.namesValid {call : Call} (hoperands : ∀ o ∈ call.operands, o.Reachable)
    (hvalid : ∀ o ∈ call.operands, o.program.NamesValid)
    (hregion : ∀ region, call.region? = some region → region.name.IsValid)
    (h : call.run.runOn supply = (.ok q, rest)) : q.program.NamesValid := by
  refine Call.forall_names (fun o ho => (hoperands o ho).exists_formed) hvalid hregion
    (fun _ _ => SetName.isValid_of_parse_eq_ok) ?_ h
  rintro name ⟨earlier, -, -, rfl⟩
  exact SetName.isValid_numbered _

end Overpass
