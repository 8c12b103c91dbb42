import AbiSpan.Bytes

/-!
Bytes as hexadecimal text, two digits a byte, high digit first.

Writing uses lower case. Reading takes either case and needs an even number of digits.
-/

namespace AbiSpan.Hex

/-- The digit of a number below sixteen. -/
def digit (n : Nat) : Char :=
  if n < 10 then Char.ofNat (48 + n) else Char.ofNat (87 + n)

def digitValue? (c : Char) : Option Nat :=
  if '0' ≤ c ∧ c ≤ '9' then some (c.toNat - 48)
  else if 'a' ≤ c ∧ c ≤ 'f' then some (c.toNat - 87)
  else if 'A' ≤ c ∧ c ≤ 'F' then some (c.toNat - 55)
  else none

def encode : Bytes → List Char
  | [] => []
  | b :: bs => digit (b.toNat / 16) :: digit (b.toNat % 16) :: encode bs

def decode? : List Char → Option Bytes
  | [] => some []
  | [_] => none
  | h :: l :: cs => do
    let h ← digitValue? h
    let l ← digitValue? l
    let bs ← decode? cs
    return UInt8.ofNat (h * 16 + l) :: bs

/-- The digits as text, with nothing in front. -/
def text (b : Bytes) : String := String.ofList (encode b)

/-- The digits as text after `0x`. -/
def marked (b : Bytes) : String := "0x" ++ text b

/-- Text without a leading `0x` or `0X`. -/
def unmark : List Char → List Char
  | '0' :: 'x' :: cs => cs
  | '0' :: 'X' :: cs => cs
  | cs => cs

/-- Reads digits with or without the mark. -/
def ofText? (s : String) : Option Bytes := decode? (unmark s.toList)

theorem digitValue?_digit {n : Nat} (h : n < 16) : digitValue? (digit n) = some n := by
  have h' : ∀ m : Fin 16, digitValue? (digit m.val) = some m.val := by decide
  exact h' ⟨n, h⟩

@[simp] theorem length_encode (b : Bytes) : (encode b).length = 2 * b.length := by
  induction b with
  | nil => rfl
  | cons x xs ih => simp only [encode, List.length_cons, ih]; omega

@[simp] theorem decode?_encode (b : Bytes) : decode? (encode b) = some b := by
  induction b with
  | nil => rfl
  | cons x xs ih =>
    have hx : x.toNat < 256 := x.toNat_lt
    have e : UInt8.ofNat (x.toNat / 16 * 16 + x.toNat % 16) = x := by
      rw [Nat.div_add_mod', UInt8.ofNat_toNat]
    simp only [encode, decode?, digitValue?_digit (by omega : x.toNat / 16 < 16),
      digitValue?_digit (by omega : x.toNat % 16 < 16), ih, Option.bind_eq_bind, Option.bind_some,
      Option.pure_def, e]

end AbiSpan.Hex
