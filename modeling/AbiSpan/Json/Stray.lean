import AbiSpan.Json.Blank
import AbiSpan.Json.Number
import AbiSpan.Json.Quoted

/-!
What a failed attempt at a small number leaves of the text.

Whoever reads an array of a known length looks once more to see that no further number stands in
it. An attempt that fails there is no fault of the array: the text goes on behind the last
character that was looked at to know that it fails. That may be in the middle of a value, or
behind something that is no value at all.

Characters are taken byte by byte. An attempt that ends inside of one leaves a text that nothing
can go on with.
-/

namespace AbiSpan.Json.Reader

/-- The text behind a number of bytes, where a character ends there. -/
def skipBytes? : Nat → List Char → Option (List Char)
  | 0, cs => some cs
  | _ + 1, [] => none
  | n + 1, c :: cs => if c.utf8Size ≤ n + 1 then skipBytes? (n + 1 - c.utf8Size) cs else none

namespace Stray

/-- Behind a word, or behind the first character that is not the word's. -/
def word? : List Char → List Char → Option (List Char)
  | [], cs => some cs
  | _ :: _, [] => none
  | w :: ws, c :: cs => if c = w then word? ws cs else skipBytes? 1 (c :: cs)

/-! ### Numbers -/

/-- Exponents beyond this one are not read to their end, where they make a number too large. -/
def maxExponent : Nat := 2147483647

/-- Behind the digits of an exponent of which `n` is read. -/
def power (large : Bool) : (n : Nat) → List Char → List Char
  | _, [] => []
  | n, c :: cs =>
    if c.isDigit then
      let n := n * 10 + (c.toNat - 48)
      if large && maxExponent < n then cs else power large n cs
    else c :: cs

/-- Behind an exponent, from its sign. A zero is never too large. -/
def exponent? (zero : Bool) (cs : List Char) : Option (List Char) :=
  let (minus, cs) := match cs with
    | '-' :: cs => (true, cs)
    | '+' :: cs => (false, cs)
    | _ => (false, cs)
  match cs with
  | [] => none
  | c :: _ => if c.isDigit then some (power (!zero && !minus) 0 cs) else skipBytes? 1 cs

/-- Behind an exponent, if there is one. -/
def scale? (zero : Bool) : List Char → Option (List Char)
  | [] => some []
  | c :: cs => if c = 'e' ∨ c = 'E' then exponent? zero cs else some (c :: cs)

/-- Behind what follows the digits before the point. -/
def fraction? (zero : Bool) : List Char → Option (List Char)
  | '.' :: cs =>
    let ds := cs.takeWhile Char.isDigit
    if ds = [] then some cs else scale? (zero && ds.all (· == '0')) (cs.drop ds.length)
  | cs => scale? zero cs

/-- Behind a number, from its first digit. -/
def number? : List Char → Option (List Char)
  | [] => none
  | c :: cs =>
    if c = '0' then fraction? true cs
    else if c.isDigit then fraction? false (cs.dropWhile Char.isDigit)
    else skipBytes? 1 (c :: cs)

/-! ### Strings -/

/-- The code unit of four digits, absent where they are none, and the text behind them. -/
def unit? (cs : List Char) : Option (Option Nat × List Char) := do
  let rest ← skipBytes? 4 cs
  match cs with
  | a :: b :: c :: d :: _ => return (Reader.unit? a b c d, rest)
  | _ => return (none, rest)

/-- Behind the second half of a surrogate pair; `true` if it is one. -/
def lowHalf? : List Char → Option (Bool × List Char)
  | '\\' :: 'u' :: cs => do
    let (u, rest) ← unit? cs
    return (u.any isLow, rest)
  | '\\' :: cs => do return (false, ← skipBytes? 1 cs)
  | cs => do return (false, ← skipBytes? 1 cs)

/-- Behind a string, or behind what makes it none. -/
def string? : (fuel : Nat) → List Char → Option (List Char)
  | 0, _ => none
  | _ + 1, [] => none
  | _ + 1, '"' :: cs => some cs
  | fuel + 1, '\\' :: 'u' :: cs => do
    let (u, rest) ← unit? cs
    match u with
    | none => some rest
    | some u =>
      if isLow u then some rest
      else if isHigh u then
        let (paired, rest) ← lowHalf? rest
        if paired then string? fuel rest else some rest
      else string? fuel rest
  | fuel + 1, '\\' :: cs =>
    match cs with
    | [] => none
    | e :: rest => if (escaped? e).isSome then string? fuel rest else skipBytes? 1 cs
  | fuel + 1, c :: cs => if isControl c then some cs else string? fuel cs

end Stray

/-- A natural number below 256. -/
def smallNumber? (cs : List Char) : Option (Json × List Char) := do
  let (j, rest) ← number? (skipBlanks cs)
  return (.natural (← j.natBelow? 256), rest)

/-- What an attempt at a small number leaves when it fails having taken something. -/
def afterStray? (cs : List Char) : Option (List Char) :=
  match cs with
  | '-' :: rest => Stray.number? rest
  | '"' :: rest => Stray.string? (rest.length + 1) rest
  | 'n' :: rest => Stray.word? ['u', 'l', 'l'] rest
  | 't' :: rest => Stray.word? ['r', 'u', 'e'] rest
  | 'f' :: rest => Stray.word? ['a', 'l', 's', 'e'] rest
  | c :: _ =>
    if c.isDigit ∧ (smallNumber? cs).isNone then Stray.number? cs else none
  | [] => none

/-- A small number behind each of a number of commas. -/
def furtherNumbers? : Nat → List Char → Option (List Json × List Char)
  | 0, cs => some ([], cs)
  | n + 1, cs =>
    match skipBlanks cs with
    | ',' :: cs => do
      let (j, rest) ← smallNumber? cs
      let (js, rest) ← furtherNumbers? n rest
      some (j :: js, rest)
    | _ => none

def closed? (cs : List Char) : Option (List Char) :=
  match skipBlanks cs with
  | ']' :: rest => some rest
  | _ => none

/-- Behind the bracket that closes an array in which no further small number stands. -/
def arrayEnd? (cs : List Char) : Option (List Char) :=
  match skipBlanks cs with
  | ',' :: cs =>
    let cs := skipBlanks cs
    match cs with
    | ']' :: rest => some rest
    | _ => (afterStray? cs).bind closed?
  | _ => closed? cs

/-- The rest of an array of small numbers, as many as the array is long. -/
def smallNumbers? (length : Nat) (cs : List Char) : Option (Json × List Char) := do
  let (j, rest) ← smallNumber? cs
  let (js, rest) ← furtherNumbers? (length - 1) rest
  return (.array (j :: js), ← arrayEnd? rest)

end AbiSpan.Json.Reader
