import Mathlib.Data.List.Nodup
import Overpass.Proofs.SetName.Generated

/-!
# Taking names

A computation comes by generated names in one way only: it takes the next one from the supply. Its
runs are recorded here together with the names that they take, each at the moment when it is taken,
so that a name counts also where the computation is refused afterwards. What is recorded is then
seen to be all that the supply gave: the names from where it stood before the run to where it stands
after it, in order and without gaps.

## Main Definitions

* `NameSupply.upTo`: the names from one moment of a supply to another, in order
* `Fresh.Takes`: the runs of a computation, with the names that they take
* `Fresh.IsRecorded`: whether all runs of a computation can be recorded

## Main Statements

* `NameSupply.nodup_upTo`: within one round of numbers, a supply does not repeat itself
* `Fresh.Takes.runOn_eq`: what is recorded is a run
* `Fresh.Takes.eq_upTo`: the names that are taken are those that the supply gave
-/

namespace Overpass

/-! ### What a supply gives -/

namespace NameSupply

variable {first middle last : NameSupply}

@[simp]
theorem next_advance (supply : NameSupply) : supply.advance.next = supply.next + 1 := rfl

/-- The names that are generated when a supply is taken from one moment to another, in order. -/
def upTo (first last : NameSupply) : List SetName :=
  (List.range' first.next (last.next - first.next)).map fun n => name ⟨n⟩

@[simp]
theorem length_upTo : (first.upTo last).length = last.next - first.next := by simp [upTo]

@[simp]
theorem upTo_self (supply : NameSupply) : supply.upTo supply = [] := by simp [upTo]

@[simp]
theorem upTo_advance (supply : NameSupply) : supply.upTo supply.advance = [supply.name] := by
  simp [upTo]

/-- What is given in two times after one another is given in both together. So the names of a
computation are those of its steps, one after the other. -/
theorem upTo_append_upTo (hfirst : first.next ≤ middle.next) (hlast : middle.next ≤ last.next) :
    first.upTo middle ++ middle.upTo last = first.upTo last := by
  obtain ⟨m, hm⟩ := Nat.exists_eq_add_of_le hfirst
  obtain ⟨n, hn⟩ := Nat.exists_eq_add_of_le hlast
  have hlength : last.next - first.next = m + n := by omega
  rw [upTo, upTo, upTo, ← List.map_append, hlength, hn, hm, Nat.add_sub_cancel_left,
    Nat.add_sub_cancel_left, List.range'_append_1]

/-- Within one round of numbers, a supply does not repeat itself. Beyond that it must, as there are
only so many numbers. -/
theorem nodup_upTo (hround : last.next ≤ first.next + UInt64.size) : (first.upTo last).Nodup := by
  rw [upTo, List.nodup_iff_pairwise_ne, List.pairwise_map]
  refine List.Pairwise.imp_of_mem (fun {m n} hm hn hlt => ?_) List.pairwise_lt_range'
  rw [List.mem_range'_1] at hm hn
  have hnear : n < m + UInt64.size := by omega
  exact @name_ne_name ⟨m⟩ ⟨n⟩ hlt hnear

/-- From the start of the supply, numbers count up from one until they start over. So the first name
that is ever generated is numbered one. -/
theorem upTo_initial (hround : last.next ≤ UInt64.size) :
    initial.upTo last = (List.range' 1 (last.next - 1)).map SetName.numbered := by
  refine List.map_congr_left fun n hn => congrArg SetName.numbered (Nat.mod_eq_of_lt ?_)
  rw [List.mem_range'_1] at hn
  have hsize : 1 < UInt64.size := by decide
  show n < UInt64.size
  omega

end NameSupply

/-! ### Recorded runs -/

namespace Fresh

/-- The runs of a computation, with the names that they take, in the order in which they take
them. -/
inductive Takes : {α : Type} → Fresh α → NameSupply → List SetName → Except QueryError α →
    NameSupply → Prop
  | lift {α : Type} (result : Except QueryError α) (supply : NameSupply) :
      Takes (Fresh.lift result) supply [] result supply
  | name (supply : NameSupply) :
      Takes Fresh.name supply [supply.name] (.ok supply.name) supply.advance
  /-- The second computation is run on what the first leaves of the supply. -/
  | bind {α β : Type} {computation : Fresh α} {next : α → Fresh β}
      {supply middle rest : NameSupply} {names others : List SetName} {a : α}
      {result : Except QueryError β} :
      Takes computation supply names (.ok a) middle → Takes (next a) middle others result rest →
      Takes (computation >>= next) supply (names ++ others) result rest
  /-- The names that the first computation took are gone, although it is refused. -/
  | refused {α β : Type} {computation : Fresh α} {next : α → Fresh β}
      {supply rest : NameSupply} {names : List SetName} {cause : QueryError} :
      Takes computation supply names (.error cause) rest →
      Takes (computation >>= next) supply names (.error cause) rest

variable {α β : Type} {computation : Fresh α} {supply rest : NameSupply} {names : List SetName}
  {result : Except QueryError α}

/-- What is recorded is a run, with its result and the supply that is left. -/
theorem Takes.runOn_eq (h : Takes computation supply names result rest) :
    computation.runOn supply = (result, rest) := by
  induction h with
  | lift result supply => exact runOn_lift result
  | name supply => rfl
  | bind _ _ ihfirst ihnext =>
      rw [runOn_bind, ihfirst]
      exact ihnext
  | refused _ ih => rw [runOn_bind, ih]

theorem Takes.next_le (h : Takes computation supply names result rest) :
    supply.next ≤ rest.next := by
  induction h with
  | lift result supply => exact Nat.le_refl _
  | name supply => exact Nat.le_succ _
  | bind _ _ ihfirst ihnext => exact ihfirst.trans ihnext
  | refused _ ih => exact ih

/-- **The names that are taken are those that the supply gave**, whatever becomes of the
computation. -/
theorem Takes.eq_upTo (h : Takes computation supply names result rest) :
    names = supply.upTo rest := by
  induction h with
  | lift result supply => rw [NameSupply.upTo_self]
  | name supply => rw [NameSupply.upTo_advance]
  | bind hfirst hnext ihfirst ihnext =>
      rw [ihfirst, ihnext, NameSupply.upTo_append_upTo hfirst.next_le hnext.next_le]
  | refused _ ih => exact ih

/-- Whether all runs of a computation can be recorded: it takes names from the supply, but does
nothing else with it. -/
def IsRecorded (computation : Fresh α) : Prop :=
  ∀ supply, ∃ names result rest, Takes computation supply names result rest

theorem isRecorded_lift (result : Except QueryError α) : IsRecorded (lift result) :=
  fun supply => ⟨[], result, supply, .lift result supply⟩

theorem isRecorded_name : IsRecorded name :=
  fun supply => ⟨[supply.name], .ok supply.name, supply.advance, .name supply⟩

/-- Computations in a row can be recorded if each of them can. With the two before, this covers all
computations that are used here. -/
theorem IsRecorded.bind {next : α → Fresh β} (hcomputation : IsRecorded computation)
    (hnext : ∀ a, IsRecorded (next a)) : IsRecorded (computation >>= next) := by
  intro supply
  obtain ⟨names, result, middle, hfirst⟩ := hcomputation supply
  cases result with
  | error cause => exact ⟨names, .error cause, middle, .refused hfirst⟩
  | ok a =>
      obtain ⟨others, result, rest, hsecond⟩ := hnext a middle
      exact ⟨names ++ others, result, rest, .bind hfirst hsecond⟩

/-- The record of a run: it has the names that the supply gives between the beginning and the end of
the run, and so it is determined by these. -/
theorem IsRecorded.takes (h : IsRecorded computation) (supply : NameSupply) :
    Takes computation supply (supply.upTo (computation.runOn supply).2)
      (computation.runOn supply).1 (computation.runOn supply).2 := by
  obtain ⟨names, result, rest, htakes⟩ := h supply
  rw [htakes.runOn_eq, ← htakes.eq_upTo]
  exact htakes

theorem IsRecorded.next_le (h : IsRecorded computation) (supply : NameSupply) :
    supply.next ≤ (computation.runOn supply).2.next :=
  (h.takes supply).next_le

end Fresh

end Overpass
