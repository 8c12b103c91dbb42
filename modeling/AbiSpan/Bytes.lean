/-!
Byte strings, and the numbers they spell.

A buffer is a plain list of bytes. Offsets, lengths and counts are natural numbers; those that
an encoding can hold, or that a range can reach, stay below `offsetBound`.
-/

namespace AbiSpan

abbrev Bytes := List UInt8

/-- A byte string of a known length. -/
structure Fixed (n : Nat) where
  bytes : Bytes
  length_eq : bytes.length = n
deriving DecidableEq

/-- Every slot of an encoding is a whole number of words. -/
def wordSize : Nat := 32

/-- A call names its function by this many bytes. -/
def selectorSize : Nat := 4

/-- The first number that no word spells. -/
def wordBound : Nat := Nat.pow 256 wordSize

/-- The first number that no offset, length or count takes, two to the power 64. -/
def offsetBound : Nat := 18446744073709551616

def maxOffset : Nat := offsetBound - 1

/-- Addition that stops at the largest offset. -/
def addCapped (a b : Nat) : Nat := min (a + b) maxOffset

/-- Multiplication that stops at the largest offset. -/
def mulCapped (a b : Nat) : Nat := min (a * b) maxOffset

/-- The least multiple of the word size that is not below `n`. -/
def padded (n : Nat) : Nat := (n + (wordSize - 1)) / wordSize * wordSize

theorem le_padded (n : Nat) : n ≤ padded n := by
  simp only [padded, wordSize]; omega

theorem padded_lt (n : Nat) : padded n < n + wordSize := by
  simp only [padded, wordSize]; omega

@[simp] theorem padded_wordSize : padded wordSize = wordSize := rfl

namespace Bytes

/-- The number that the bytes spell, first byte first. -/
def toNat (b : Bytes) : Nat := b.foldl (fun acc x => acc * 256 + x.toNat) 0

@[simp] theorem toNat_nil : toNat [] = 0 := rfl

theorem toNat_snoc (b : Bytes) (x : UInt8) : toNat (b ++ [x]) = toNat b * 256 + x.toNat := by
  simp [toNat]

/-- The `size` bytes from `offset`, when the buffer holds all of them. -/
def slice? (b : Bytes) (offset size : Nat) : Option Bytes :=
  if offset + size ≤ b.length then some ((b.drop offset).take size) else none

theorem slice?_eq_some_iff {b s : Bytes} {offset size : Nat} :
    b.slice? offset size = some s ↔
      offset + size ≤ b.length ∧ (b.drop offset).take size = s := by
  unfold slice?
  split <;> simp [*]

theorem length_of_slice? {b s : Bytes} {offset size : Nat} (h : b.slice? offset size = some s) :
    s.length = size := by
  unfold slice? at h
  split at h
  · cases h; simp; omega
  · cases h

end Bytes

namespace Fixed

variable {n : Nat}

@[simp] theorem length_bytes (f : Fixed n) : f.bytes.length = n := f.length_eq

/-- The bytes, when there are exactly `n` of them. -/
def ofBytes? (n : Nat) (b : Bytes) : Option (Fixed n) :=
  if h : b.length = n then some ⟨b, h⟩ else none

/-- The first `n` bytes, when there are at least that many. -/
def front? (n : Nat) (b : Bytes) : Option (Fixed n) := ofBytes? n (b.take n)

end Fixed

end AbiSpan
