import AbiSpan.Bytes

/-!
Text from bytes that need not be UTF-8. Where the bytes stop making sense, as many of them as
could have begun a character are replaced by one U+FFFD.
-/

namespace AbiSpan.Utf8

def replacement : Char := '\ufffd'

/-- Bytes of two to four that a first byte announces, and the range of the second. -/
def leading? (b : Nat) : Option (Nat × Nat × Nat) :=
  if 0xc2 ≤ b ∧ b ≤ 0xdf then some (1, 0x80, 0xbf)
  else if b = 0xe0 then some (2, 0xa0, 0xbf)
  else if b = 0xed then some (2, 0x80, 0x9f)
  else if 0xe1 ≤ b ∧ b ≤ 0xef then some (2, 0x80, 0xbf)
  else if b = 0xf0 then some (3, 0x90, 0xbf)
  else if b = 0xf4 then some (3, 0x80, 0x8f)
  else if 0xf1 ≤ b ∧ b ≤ 0xf3 then some (3, 0x80, 0xbf)
  else none

/-- The payload bits of a first byte that announces `more` others. -/
def leadBits (more b : Nat) : Nat := b % (64 >>> more)

/-- A character that is being read. -/
structure Open where
  /-- The bits so far. -/
  bits : Nat
  /-- How many bytes are still to come. -/
  more : Nat
  /-- The range of the next of them. -/
  low : Nat
  high : Nat

/-- Reads on; the text read so far comes last character first. -/
def scan : (rev : List Char) → Option Open → Bytes → List Char
  | rev, none, [] => rev.reverse
  | rev, some _, [] => (replacement :: rev).reverse
  | rev, state, b :: bs =>
    let n := b.toNat
    match state with
    | some o =>
      if o.low ≤ n ∧ n ≤ o.high then
        let bits := o.bits * 64 + n % 64
        if o.more = 1 then scan (Char.ofNat bits :: rev) none bs
        else scan rev (some { bits, more := o.more - 1, low := 0x80, high := 0xbf }) bs
      else fresh (replacement :: rev) n bs
    | none => fresh rev n bs
where
  /-- A byte where a character may begin. -/
  fresh (rev : List Char) (n : Nat) (bs : Bytes) : List Char :=
    if n < 0x80 then scan (Char.ofNat n :: rev) none bs
    else match leading? n with
      | some (more, low, high) => scan rev (some { bits := leadBits more n, more, low, high }) bs
      | none => scan (replacement :: rev) none bs

def decodeLossy (b : Bytes) : String := String.ofList (scan [] none b)

end AbiSpan.Utf8
