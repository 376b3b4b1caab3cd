/-!
# Digests of texts

A region is named after a digest of its printed forms, so that equal regions get equal names. The
digest reads the UTF-8 bytes of a text into two words of 64 bits by folded multiplication and closes
with two polynomial steps and a rotation.

## Main Definitions

* `Digest.foldedProduct`: the two halves of a 128-bit product, combined
* `Digest.ofBytes`: the digest of a byte string
* `Digest.ofText`: the digest of a text followed by the byte that ends it
* `Digest.hex`: sixteen hexadecimal digits
-/

namespace Overpass.Digest

/-- The low and the high word of the product of two words, combined by exclusive or. -/
def foldedProduct (x y : UInt64) : UInt64 :=
  let product := x.toNat * y.toNat
  UInt64.ofNat product ^^^ UInt64.ofNat (product / UInt64.size)

/-- The bytes read as one word, the first byte being the least significant. -/
def word (bytes : List UInt8) : UInt64 :=
  bytes.foldr (fun b acc => acc * 256 + b.toUInt64) 0

/-- The two words that a digest accumulates. -/
structure State where
  first : UInt64
  second : UInt64

/-- The words before anything is read. -/
def State.initial : State := ⟨0x243f6a8885a308d3, 0x13198a2e03707344⟩

/-- Reads two words of eight bytes: their folded product moves in, the older word moves out. -/
def State.absorb (s : State) (x y : UInt64) : State :=
  ⟨s.second, foldedProduct (s.first ^^^ x) (0xa4093822299f31d0 ^^^ y)⟩

/-- Combines two last words into the state. -/
def State.close (s : State) (x y : UInt64) : State := ⟨s.first ^^^ x, s.second ^^^ y⟩

/-- Reads `count` blocks of sixteen bytes. -/
def absorbBlocks : Nat → List UInt8 → State → State
  | 0, _, s => s
  | count + 1, bytes, s =>
    absorbBlocks count (bytes.drop 16)
      (s.absorb (word (bytes.take 8)) (word ((bytes.drop 8).take 8)))

/-- The state after a byte string. Short strings are read by two words that may overlap; longer ones
by blocks of sixteen bytes, and their last sixteen bytes once more. -/
def stateAfter (bytes : List UInt8) : State :=
  let n := bytes.length
  if 16 < n then
    (absorbBlocks ((n - 1) / 16) bytes .initial).close
      (word ((bytes.drop (n - 16)).take 8)) (word (bytes.drop (n - 8)))
  else if 8 ≤ n then State.initial.close (word (bytes.take 8)) (word (bytes.drop (n - 8)))
  else if 4 ≤ n then State.initial.close (word (bytes.take 4)) (word (bytes.drop (n - 4)))
  else
    match bytes with
    | [] => .initial
    | b :: _ =>
      State.initial.close b.toUInt64
        (word [bytes.getD (n / 2) 0, bytes.getD (n - 1) 0])

/-- The digest of the bytes alone. -/
def ofBytes (bytes : List UInt8) : UInt64 :=
  let s := stateAfter bytes
  foldedProduct s.first s.second ^^^ UInt64.ofNat bytes.length

/-- One polynomial step of the outer hash. -/
def step (hash input : UInt64) : UInt64 := (hash + input) * 0xf1357aea2e62a9c5

/-- The digest of a text: its bytes and an ending byte are hashed in turn, then rotated. -/
def ofText (text : String) : UInt64 :=
  let bytes := text.toList.flatMap String.utf8EncodeChar
  let hash := step (step 0 (ofBytes bytes)) 0xff
  (hash <<< 26) ||| (hash >>> 38)

/-- Sixteen lower-case hexadecimal digits, most significant first: the digits of the number, with
zeros put before them where they are fewer. -/
def hex (digest : UInt64) : List Char := (Nat.toDigits 16 digest.toNat).leftpad 16 '0'

end Overpass.Digest
