import AbiSpan.Json

/-!
Numbers in JSON text.

A number that is kept must be finite as a double. How large it is taken to be follows the digits
from the left: they make a significand of at most 64 bits, the digits behind it only count, and
significand and power of ten are rounded before they are multiplied.
-/

namespace AbiSpan.Json.Reader

def digitsToNat (ds : List Char) : Nat := ds.foldl (fun n c => n * 10 + (c.toNat - 48)) 0

/-! ### Size -/

/-- Significands stay below two to the power 64. -/
def significandBound : Nat := 18446744073709551616

/-- Digits join a significand up to the first that makes it too large. The second number counts
those left over. -/
def absorb : Nat → List Char → Nat × Nat
  | n, [] => (n, 0)
  | n, c :: cs =>
    let m := n * 10 + (c.toNat - 48)
    if m < significandBound then absorb m cs else (n, cs.length + 1)

/-- The nearest number of 53 significant bits; of two that are as near, the even one. -/
def nearestDouble (n : Nat) : Nat :=
  let unit := Nat.pow 2 (n.log2 - 52)
  let below := n / unit
  let rest := n % unit
  if 2 * rest < unit ∨ (2 * rest = unit ∧ below % 2 = 0) then below * unit
  else (below + 1) * unit

/-- The largest exponent of a power of ten that is a double. -/
def maxPower : Nat := 308

/-- Numbers from here on round to no finite double. -/
def doubleBound : Nat := Nat.pow 2 1024 - Nat.pow 2 970

/-- The digits before and behind the point, times ten to the exponent, make a finite double. -/
def isFinite (whole fraction : List Char) (exponent : Int) : Bool :=
  let (n, counted) := absorb 0 whole
  let (n, dropped) := absorb n fraction
  let scale := exponent + counted - (fraction.length - dropped : Nat)
  n == 0 || scale < 0 ||
    (scale ≤ maxPower &&
      nearestDouble n * nearestDouble (Nat.pow 10 scale.toNat) < doubleBound)

/-! ### Grammar -/

/-- A sign, digits without a leading zero, maybe a fraction, maybe an exponent. -/
def number? (cs : List Char) : Option (Json × List Char) := do
  let (sign, body) := match cs with
    | '-' :: cs => (['-'], cs)
    | _ => ([], cs)
  let whole := body.takeWhile Char.isDigit
  let rest := body.dropWhile Char.isDigit
  if whole = [] ∨ (whole.head? = some '0' ∧ 1 < whole.length) then none
  let (fraction, rest) ← match rest with
    | '.' :: rest =>
      let ds := rest.takeWhile Char.isDigit
      if ds = [] then none else some (ds, rest.dropWhile Char.isDigit)
    | _ => some ([], rest)
  let (exponent, rest) ← match rest with
    | e :: tail =>
      if e = 'e' ∨ e = 'E' then do
        let (minus, tail) := match tail with
          | '-' :: tail => (true, tail)
          | '+' :: tail => (false, tail)
          | _ => (false, tail)
        let ds := tail.takeWhile Char.isDigit
        if ds = [] then none
        let n : Int := digitsToNat ds
        some (some (if minus then -n else n), tail.dropWhile Char.isDigit)
      else some (none, rest)
    | [] => some (none, rest)
  if ¬ isFinite whole fraction (exponent.getD 0) then
    return (.garbled, rest)
  if sign = [] ∧ fraction = [] ∧ exponent = none then
    return (.natural (digitsToNat whole), rest)
  return (.number (String.ofList (cs.take (cs.length - rest.length))), rest)

end AbiSpan.Json.Reader
