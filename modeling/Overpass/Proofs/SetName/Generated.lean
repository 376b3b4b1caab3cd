import Mathlib.Data.Nat.Digits.Defs
import Overpass.Proofs.SetName.Syntax
import Overpass.SetName.Supply

/-!
# Given and generated names

A caller's name is never a generated one, and a supply does not repeat itself before its numbers
start over. So a name that is given once, and a name that is generated, are both new wherever they
are taken. The name of a region is not numbered but shows the digest of a key. All bits of the
digest can be read off it, so different keys share a name only if they have the same digest.

## Main Definitions

* `Digest.Collide`: whether two texts differ but have the same digest
* `NameSupply.Gives`: whether a name is generated between two moments of a supply

## Main Statements

* `SetName.numbered_injective`: numbers can be read off the names that are generated from them
* `Digest.hex_injective`: digests can be read off their hexadecimal digits
* `SetName.ofKey_eq_ofKey_iff`: two keys give the same name only if they collide
* `SetName.parse_ne_ok_numbered`, `SetName.parse_ne_ok_ofKey`: no caller's name is generated
* `SetName.numbered_ne_ofKey`: no numbered name is the name of a region
* `NameSupply.not_gives_name`: a generated name was not generated before
-/

namespace Overpass

/-! ### Digests -/

namespace Digest

/-- The number that a hexadecimal digit stands for. -/
def digitValue (c : Char) : ℕ :=
  if c.isDigit then c.toNat - '0'.toNat else c.toNat - 'a'.toNat + 10

/-- The number that hexadecimal digits stand for, the most significant first. -/
def hexValue (digits : List Char) : ℕ :=
  digits.foldl (fun value c => value * 16 + digitValue c) 0

theorem digitValue_digitChar : ∀ n < 16, digitValue (Nat.digitChar n) = n := by decide

theorem hexValue_concat (digits : List Char) (c : Char) :
    hexValue (digits ++ [c]) = hexValue digits * 16 + digitValue c := by
  rw [hexValue, List.foldl_append]
  rfl

theorem hexValue_toDigits (n : ℕ) : hexValue (Nat.toDigits 16 n) = n := by
  induction n using Nat.strongRecOn with
  | ind n ih =>
  rw [Nat.toDigits_eq_if (by decide)]
  split
  · next hlt =>
      rw [← List.nil_append [_], hexValue_concat, digitValue_digitChar n hlt]
      exact Nat.zero_add n
  · rw [hexValue_concat, ih (n / 16) (by omega), digitValue_digitChar _ (Nat.mod_lt n (by decide))]
    omega

/-- Zeros in front do not count, so digits that were padded to one length are read back as they
were. -/
theorem hexValue_leftpad (count : ℕ) (digits : List Char) :
    hexValue (digits.leftpad count '0') = hexValue digits := by
  have hzeros : ∀ zeros, hexValue (List.replicate zeros '0') = 0 := by
    intro zeros
    induction zeros with
    | zero => rfl
    | succ zeros ih =>
        rw [List.replicate_succ', hexValue_concat, ih]
        rfl
  have hfold := hzeros (count - digits.length)
  rw [hexValue] at hfold
  rw [List.leftpad, hexValue, List.foldl_append, hfold, hexValue]

/-- Digests are written with all of their sixteen digits, zeros in front included, and so they can
be read back. -/
theorem hex_injective : Function.Injective hex := by
  intro x y h
  have hvalue := congrArg hexValue h
  rw [hex, hex, hexValue_leftpad, hexValue_leftpad, hexValue_toDigits,
    hexValue_toDigits] at hvalue
  exact UInt64.toNat_inj.mp hvalue

/-- Whether two texts are different but have the same digest. Digests are shorter than texts, so
such texts exist. -/
structure Collide (text other : String) : Prop where
  ne : text ≠ other
  ofText_eq : ofText text = ofText other

end Digest

/-! ### Names -/

namespace SetName

theorem numbered_injective : Function.Injective numbered := by
  intro m n h
  have hdigits : Nat.toDigits 10 m = Nat.toDigits 10 n := by
    have htexts := congrArg (fun name => name.text.toList) h
    simpa only [numbered, String.toList_ofList, List.cons.injEq, true_and] using htexts
  calc
    m = Nat.ofDigitChars 10 (Nat.toDigits 10 m) 0 := Nat.ofDigitChars_ten_toDigits.symm
    _ = Nat.ofDigitChars 10 (Nat.toDigits 10 n) 0 := by rw [hdigits]
    _ = n := Nat.ofDigitChars_ten_toDigits

theorem isReserved_numbered (n : Nat) : isReserved (numbered n).text.toList = true := by
  have hnonempty : (Nat.toDigits 10 n).isEmpty = false := by
    simp [Nat.toDigits_ne_nil]
  have hdigits : (Nat.toDigits 10 n).all Char.isDigit = true := by
    rw [List.all_eq_true]
    exact fun c hc => Nat.isDigit_of_mem_toDigits (by decide) (by decide) hc
  simp [numbered, isReserved, hnonempty, hdigits]

theorem isHexDigit_digitChar : ∀ n < 16, isHexDigit (Nat.digitChar n) = true := by decide

/-- The digits of a number are those of its sixteenth part and one more. -/
theorem isHexDigit_of_mem_toDigits {n : ℕ} {c : Char} (h : c ∈ Nat.toDigits 16 n) :
    isHexDigit c = true := by
  induction n using Nat.strongRecOn with
  | ind n ih =>
  rw [Nat.toDigits_eq_if (by decide)] at h
  split at h
  · next hlt =>
      rw [List.mem_singleton.mp h]
      exact isHexDigit_digitChar n hlt
  · rcases List.mem_append.mp h with h | h
    · exact ih (n / 16) (by omega) h
    · rw [List.mem_singleton.mp h]
      exact isHexDigit_digitChar _ (Nat.mod_lt n (by decide))

theorem isHexDigit_of_mem_hex {digest : UInt64} {c : Char} (h : c ∈ Digest.hex digest) :
    isHexDigit c = true := by
  rw [Digest.hex, List.leftpad, List.mem_append] at h
  rcases h with h | h
  · rw [List.eq_of_mem_replicate h]
    rfl
  · exact isHexDigit_of_mem_toDigits h

/-- A word of 64 bits has sixteen hexadecimal digits at most, and those that it lacks are zeros. -/
theorem length_hex (digest : UInt64) : (Digest.hex digest).length = 16 := by
  have hlt : digest.toNat < Nat.pow 16 16 := digest.toNat_lt
  rw [Digest.hex, List.length_leftpad]
  exact Nat.max_eq_left (Nat.toDigits_length 16 _ 16 (by decide) hlt)

theorem isReserved_ofKey (key : String) : isReserved (ofKey key).text.toList = true := by
  have hdigits : (Digest.hex (Digest.ofText key)).all isHexDigit = true := by
    rw [List.all_eq_true]
    exact fun c hc => isHexDigit_of_mem_hex hc
  rw [ofKey, String.toList_ofList, isReserved, length_hex, hdigits]
  rfl

/-- **Two keys give the same name if and only if they are the same or collide.** Nothing is assumed
of the digest: a collision is exhibited wherever names coincide. -/
theorem ofKey_eq_ofKey_iff {key other : String} :
    ofKey key = ofKey other ↔ key = other ∨ Digest.Collide key other := by
  constructor
  · intro h
    have hdigests : Digest.ofText key = Digest.ofText other := by
      have htexts := congrArg (fun name => name.text.toList) h
      simpa only [ofKey, String.toList_ofList, List.cons.injEq, true_and,
        Digest.hex_injective.eq_iff] using htexts
    by_cases heq : key = other
    · exact Or.inl heq
    · exact Or.inr ⟨heq, hdigests⟩
  · rintro (rfl | hcollide)
    · rfl
    · rw [ofKey, ofKey, hcollide.ofText_eq]

/-- The two generated forms differ in their second character. So numbered names and names of keys
cannot meet. -/
theorem numbered_ne_ofKey (n : Nat) (key : String) : numbered n ≠ ofKey key := by
  intro h
  have htexts := congrArg (fun name => name.text.toList) h
  simp [numbered, ofKey] at htexts

/-- A name is taken as it is given, or refused. It is neither trimmed nor changed in any other
way. -/
theorem parse_eq_ok_iff {text : String} {name : SetName} :
    parse text = .ok name ↔ ofText? text = some name := by
  unfold parse
  cases ofText? text <;> simp

/-- No caller's name is of a generated form, since these are what the second test refuses. -/
theorem isReserved_of_parse_eq_ok {text : String} {name : SetName} (h : parse text = .ok name) :
    isReserved name.text.toList = false := by
  obtain ⟨-, hreserved, rfl⟩ := ofText?_eq_some_iff.mp (parse_eq_ok_iff.mp h)
  exact hreserved

theorem parse_ne_ok_numbered (text : String) (n : Nat) : parse text ≠ .ok (numbered n) := by
  intro h
  have hreserved := isReserved_of_parse_eq_ok h
  rw [isReserved_numbered] at hreserved
  cases hreserved

theorem parse_ne_ok_ofKey (text key : String) : parse text ≠ .ok (ofKey key) := by
  intro h
  have hreserved := isReserved_of_parse_eq_ok h
  rw [isReserved_ofKey] at hreserved
  cases hreserved

end SetName

namespace NameSupply

variable {first last supply : NameSupply} {name : SetName}

/-- Whether a name is generated when a supply is taken from one moment to another. -/
def Gives (first last : NameSupply) (name : SetName) : Prop :=
  ∃ supply : NameSupply, first.next ≤ supply.next ∧ supply.next < last.next ∧ supply.name = name

/-- What is generated in a shorter time is generated in a longer one that includes it. -/
theorem Gives.mono {first' last' : NameSupply} (h : first.Gives last name)
    (hfirst : first'.next ≤ first.next) (hlast : last.next ≤ last'.next) :
    first'.Gives last' name := by
  obtain ⟨supply, hafter, hbefore, hname⟩ := h
  exact ⟨supply, Nat.le_trans hfirst hafter, Nat.lt_of_lt_of_le hbefore hlast, hname⟩

/-- The name that is taken next is given besides those before. So the names of a run are followed
call by call. -/
theorem gives_advance_iff (hfirst : first.next ≤ supply.next) :
    first.Gives supply.advance name ↔ first.Gives supply name ∨ name = supply.name := by
  constructor
  · rintro ⟨earlier, hafter, hbefore, rfl⟩
    rcases Nat.lt_succ_iff_lt_or_eq.mp hbefore with hlt | heq
    · exact Or.inl ⟨earlier, hafter, hlt, rfl⟩
    · exact Or.inr (congrArg NameSupply.name (congrArg NameSupply.mk heq))
  · rintro (⟨earlier, hafter, hbefore, rfl⟩ | rfl)
    · exact ⟨earlier, hafter, Nat.lt_succ_of_lt hbefore, rfl⟩
    · exact ⟨supply, hfirst, Nat.lt_succ_self supply.next, rfl⟩

/-- Within one round of numbers, a supply gives no name twice. A round has as many numbers as there
are of sixty-four bits. -/
theorem name_ne_name (hlt : first.next < last.next)
    (hround : last.next < first.next + UInt64.size) : first.name ≠ last.name := by
  intro hname
  have hnumbers : first.next % UInt64.size = last.next % UInt64.size :=
    SetName.numbered_injective hname
  rw [UInt64.size] at *
  omega

/-- Within one round of numbers, the next name was not generated before. -/
theorem not_gives_name (h : supply.next < first.next + UInt64.size) :
    ¬ first.Gives supply supply.name := by
  rintro ⟨earlier, hfirst, hlast, hname⟩
  exact name_ne_name hlast (by omega) hname

end NameSupply

end Overpass
