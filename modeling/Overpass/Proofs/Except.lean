import Mathlib.Data.List.Forall2

/-!
# Results that may be refusals

Whatever a caller may get wrong gives a result that is either a value or the reason of a refusal.
Such results are put together in few ways: one step after another, a list item by item, what is
optional only where it is given. This module says of each of these ways when it succeeds, with which
value, and for which reason it is refused otherwise, so that the steps of a definition can be taken
apart by name and none of its callers unfolds it.

## Main Statements

* `bind_eq_ok_iff`, `bind_eq_error_iff`: a step after another one
* `map_eq_ok_iff`, `map_eq_error_iff`: a value that is wrapped after its step
* `mapError_eq_ok_iff`, `mapError_eq_error_iff`: a refusal that is reworded
* `mapM_eq_ok_iff`, `exists_mem_of_mapM_eq_error`: a list that is read item by item
* `option_mapM_eq_ok_iff`, `exists_of_option_mapM_eq_error`: what is optional
* `forM_eq_ok_iff`: checks in turn
-/

namespace Overpass

section Results

variable {ε α β : Type} {cause : ε}

/-! ### Steps -/

/-- A step followed by another one succeeds where both succeed. The value in between is what the
second step was given, so a definition of several steps is taken apart from the front. -/
theorem bind_eq_ok_iff {first : Except ε α} {next : α → Except ε β} {b : β} :
    first >>= next = .ok b ↔ ∃ a, first = .ok a ∧ next a = .ok b := by
  cases first with
  | error cause => simp [bind, Except.bind]
  | ok a => simp [bind, Except.bind]

/-- A step followed by another one is refused where the first of them that is refused is. So the
reasons for a refusal come in the order of the steps. -/
theorem bind_eq_error_iff {first : Except ε α} {next : α → Except ε β} :
    first >>= next = .error cause ↔
      first = .error cause ∨ ∃ a, first = .ok a ∧ next a = .error cause := by
  cases first with
  | error refusal => simp [bind, Except.bind]
  | ok a => simp [bind, Except.bind]

/-- Wrapping a value does not refuse anything, so a wrapped result is refused only where the step
before was. -/
theorem map_eq_error_iff {f : α → β} {result : Except ε α} :
    f <$> result = .error cause ↔ result = .error cause := by
  cases result with
  | error refusal => simp [Functor.map, Except.map]
  | ok a => simp [Functor.map, Except.map]

/-- A wrapped value was a value before it was wrapped. Refusals pass through the wrapping, so there
is no other way to come by a value. -/
theorem map_eq_ok_iff {f : α → β} {result : Except ε α} {b : β} :
    f <$> result = .ok b ↔ ∃ a, result = .ok a ∧ f a = b := by
  cases result with
  | error refusal => simp [Functor.map, Except.map]
  | ok a => simp [Functor.map, Except.map]

/-- Rewording refusals changes no value: the same values come out on either side. -/
theorem mapError_eq_ok_iff {ε' : Type} {f : ε → ε'} {result : Except ε α} {a : α} :
    result.mapError f = .ok a ↔ result = .ok a := by
  cases result <;> simp [Except.mapError]

/-- A reworded refusal was a refusal before it was reworded, and its wording came from there. No
wording is made up where nothing was refused. -/
theorem mapError_eq_error_iff {ε' : Type} {f : ε → ε'} {result : Except ε α} {cause : ε'} :
    result.mapError f = .error cause ↔ ∃ refusal, result = .error refusal ∧ f refusal = cause := by
  cases result <;> simp [Except.mapError]

/-- A result whose refusal is dropped still shows its value. So what is looked up as an option, such
as the region of a place, can be traced back to the check that it passed. -/
theorem eq_ok_of_toOption {result : Except ε α} {a : α} (h : result.toOption = some a) :
    result = .ok a := by
  cases result with
  | error cause => cases h
  | ok b => rw [Option.some.inj h]

/-! ### Checks -/

/-- Checks in turn accept what each of them accepts. Their order matters for which refusal is
reported, and not for what is accepted. -/
theorem bind_check_eq_ok_iff {first second : Except ε Unit} :
    (do first; second) = .ok () ↔ first = .ok () ∧ second = .ok () := by
  rw [bind_eq_ok_iff]
  exact ⟨fun ⟨(), h⟩ => h, fun h => ⟨(), h⟩⟩

/-- Items are accepted in turn if each of them is, whatever their order. The order decides only
which item is reported when several are refused. -/
theorem forM_eq_ok_iff {check : α → Except ε Unit} {items : List α} :
    items.forM check = .ok () ↔ ∀ x ∈ items, check x = .ok () := by
  induction items with
  | nil => exact iff_of_true rfl fun _ hx => absurd hx List.not_mem_nil
  | cons x items ih =>
      rw [List.forM, bind_check_eq_ok_iff, ih, List.forall_mem_cons]

/-! ### Lists -/

variable {read : α → Except ε β}

/-- A list is refused for one of its items. The reason is that of the first item that is refused,
but which one this is does not matter to what is proved of reasons. -/
theorem exists_mem_of_mapM_eq_error {items : List α} (h : items.mapM read = .error cause) :
    ∃ a ∈ items, read a = .error cause := by
  induction items with
  | nil => cases h
  | cons a rest ih =>
      rw [List.mapM_cons, bind_eq_error_iff] at h
      rcases h with hrefused | ⟨b, -, h⟩
      · exact ⟨a, List.mem_cons_self, hrefused⟩
      · rcases bind_eq_error_iff.mp h with hrest | ⟨bs, -, hdone⟩
        · obtain ⟨c, hc, hrefused⟩ := ih hrest
          exact ⟨c, List.mem_cons_of_mem a hc, hrefused⟩
        · cases hdone

/-- A list is read item by item: it has as many results as items, each in the place of its item. -/
theorem mapM_eq_ok_iff {items : List α} {results : List β} :
    items.mapM read = .ok results ↔ List.Forall₂ (fun a b => read a = .ok b) items results := by
  induction items generalizing results with
  | nil =>
      rw [List.mapM_nil, List.forall₂_nil_left_iff]
      exact ⟨fun h => (Except.ok.inj h).symm, fun h => congrArg Except.ok h.symm⟩
  | cons a rest ih =>
      rw [List.mapM_cons, List.forall₂_cons_left_iff]
      constructor
      · intro h
        cases hread : read a with
        | error refusal =>
            rw [hread] at h
            cases h
        | ok b =>
            cases hrest : rest.mapM read with
            | error refusal =>
                rw [hread, hrest] at h
                cases h
            | ok bs =>
                rw [hread, hrest] at h
                cases h
                exact ⟨b, bs, rfl, ih.mp hrest, rfl⟩
      · rintro ⟨b, bs, hread, hrest, rfl⟩
        rw [hread, ih.mpr hrest]
        rfl

/-- The texts of values are read item by item if each of them gives the result in its place, which
need not be the value that was written. -/
theorem mapM_map_eq_ok {γ : Type} {write : γ → α} {values : List γ} {results : List β}
    (h : List.Forall₂ (fun x b => read (write x) = .ok b) values results) :
    (values.map write).mapM read = .ok results :=
  mapM_eq_ok_iff.mpr (List.forall₂_map_left_iff.mpr h)

/-! ### Options -/

/-- What is optional is refused only where it is given. So a request or a draft is never refused for
a text that it leaves out. -/
theorem exists_of_option_mapM_eq_error {given : Option α} (h : given.mapM read = .error cause) :
    ∃ a, given = some a ∧ read a = .error cause := by
  cases given with
  | none => cases h
  | some a =>
      rw [Option.mapM_some, map_eq_error_iff] at h
      exact ⟨a, rfl, h⟩

/-- What is optional is read where it is given, and there is a result only there. -/
theorem option_mapM_eq_ok_iff {given : Option α} {result : Option β} :
    given.mapM read = .ok result ↔ Option.Rel (fun a b => read a = .ok b) given result := by
  cases given with
  | none =>
      rw [Option.mapM_none]
      constructor
      · rintro ⟨⟩
        exact .none
      · rintro ⟨⟩
        rfl
  | some a =>
      rw [Option.mapM_some]
      constructor
      · intro h
        cases hread : read a with
        | error refusal =>
            rw [hread] at h
            cases h
        | ok b =>
            rw [hread] at h
            cases h
            exact .some hread
      · rintro ⟨hread⟩
        rw [hread]
        rfl

/-- Related options stay related when the right one is wrapped in a way that the relation allows. -/
theorem rel_map_right {γ : Type} {r : α → β → Prop} {s : α → γ → Prop} {f : β → γ}
    {a : Option α} {b : Option β} (h : Option.Rel r a b) (hf : ∀ {x y}, r x y → s x (f y)) :
    Option.Rel s a (b.map f) := by
  cases h with
  | none => exact .none
  | some hxy => exact .some (hf hxy)

end Results

end Overpass
