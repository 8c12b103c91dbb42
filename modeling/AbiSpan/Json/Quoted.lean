import AbiSpan.Json

/-!
Strings in JSON text, as the code units that they spell.
-/

namespace AbiSpan.Json.Reader

def hexValue? (c : Char) : Option Nat :=
  if c.isDigit then some (c.toNat - 48)
  else if 'a' ≤ c ∧ c ≤ 'f' then some (c.toNat - 87)
  else if 'A' ≤ c ∧ c ≤ 'F' then some (c.toNat - 55)
  else none

def unit? (a b c d : Char) : Option Nat := do
  return (((← hexValue? a) * 16 + (← hexValue? b)) * 16 + (← hexValue? c)) * 16 + (← hexValue? d)

/-- What a one-letter escape stands for. -/
def escaped? : Char → Option Char
  | '"' => some '"'
  | '\\' => some '\\'
  | '/' => some '/'
  | 'b' => some '\x08'
  | 'f' => some '\x0c'
  | 'n' => some '\n'
  | 'r' => some '\r'
  | 't' => some '\t'
  | _ => none

/-- Control characters must be escaped. -/
def isControl (c : Char) : Bool := c.toNat < 0x20

/-- The code units up to the closing quote, last first, and what follows the quote. -/
def units? : (rev : List Nat) → List Char → Option (List Nat × List Char)
  | _, [] => none
  | rev, '"' :: cs => some (rev, cs)
  | rev, '\\' :: 'u' :: a :: b :: c :: d :: cs =>
    match unit? a b c d with
    | some u => units? (u :: rev) cs
    | none => none
  | rev, '\\' :: e :: cs =>
    match escaped? e with
    | some c => units? (c.toNat :: rev) cs
    | none => none
  | rev, c :: cs => if isControl c ∨ c = '\\' then none else units? (c.toNat :: rev) cs

def isHigh (u : Nat) : Bool := 0xd800 ≤ u && u < 0xdc00

def isLow (u : Nat) : Bool := 0xdc00 ≤ u && u < 0xe000

/-- The character that a surrogate pair stands for. -/
def joinPair (high low : Nat) : Char :=
  Char.ofNat (0x10000 + (high - 0xd800) * 0x400 + (low - 0xdc00))

/-- The text of code units given last first; `none` for half a surrogate pair. -/
def joinOnto? : (cs : List Char) → (rev : List Nat) → Option (List Char)
  | cs, [] => some cs
  | cs, [u] => if isLow u || isHigh u then none else some (Char.ofNat u :: cs)
  | cs, u :: v :: rev =>
    if isLow u then
      if isHigh v then joinOnto? (joinPair v u :: cs) rev else none
    else if isHigh u then none
    else joinOnto? (Char.ofNat u :: cs) (v :: rev)

/-- The rest of a string behind its opening quote; the text is absent if it is garbled. -/
def quoted? (cs : List Char) : Option (Option String × List Char) := do
  let (rev, rest) ← units? [] cs
  return ((joinOnto? [] rev).map String.ofList, rest)

end AbiSpan.Json.Reader
