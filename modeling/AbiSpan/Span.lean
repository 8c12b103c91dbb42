import AbiSpan.Bytes

/-!
Byte ranges of a buffer, given by where they start and how long they are.
-/

namespace AbiSpan

structure Span where
  offset : Nat
  size : Nat
deriving DecidableEq, Repr, Inhabited

namespace Span

/-- One past the last byte, but no more than the largest offset. -/
def stop (s : Span) : Nat := addCapped s.offset s.size

/-- The same range when its buffer starts `base` bytes into another. -/
def shift (s : Span) (base : Nat) : Span := { s with offset := base + s.offset }

/-- The bytes of the range, when the buffer holds all of them. -/
def slice? (s : Span) (b : Bytes) : Option Bytes := b.slice? s.offset s.size

/-- The range lies inside the buffer. -/
def Fits (s : Span) (b : Bytes) : Prop := s.offset + s.size ≤ b.length

instance (s : Span) (b : Bytes) : Decidable (s.Fits b) :=
  inferInstanceAs (Decidable (_ ≤ _))

/-- Written from start to stop. -/
def text (s : Span) : String := s!"[{s.offset}..{s.stop}]"

theorem isSome_slice? (s : Span) (b : Bytes) : (s.slice? b).isSome = decide (s.Fits b) := by
  unfold slice? Bytes.slice? Fits
  split <;> simp [*]

@[simp] theorem shift_zero (s : Span) : s.shift 0 = s := by simp [shift]

end Span

end AbiSpan
