/-!
JSON values.

An object keeps its pairs as they were written, repeated keys included. A whole number without
sign, point or exponent is a `natural`; any other number keeps its text. `garbled` stands for
what the grammar allows and no value can hold: half a surrogate pair, a number too large.
-/

namespace AbiSpan

inductive Json where
  | null
  | bool (b : Bool)
  | natural (n : Nat)
  | number (text : String)
  | string (s : String)
  | array (items : List Json)
  | object (pairs : List (String × Json))
  | garbled
deriving BEq, Inhabited

namespace Json

mutual

/-- Nothing inside is garbled, and nothing is nested more than `room` deep. -/
def sound (room : Nat) : Json → Bool
  | .garbled => false
  | .array items => 0 < room && soundAll (room - 1) items
  | .object pairs => 0 < room && soundPairs (room - 1) pairs
  | _ => true

def soundAll (room : Nat) : List Json → Bool
  | [] => true
  | j :: js => j.sound room && soundAll room js

def soundPairs (room : Nat) : List (String × Json) → Bool
  | [] => true
  | (_, j) :: ps => j.sound room && soundPairs room ps

end

/-- Values that a reader keeps may be nested this deep. -/
def maxDepth : Nat := 127

def bool? : Json → Option Bool
  | .bool b => some b
  | _ => none

def string? : Json → Option String
  | .string s => some s
  | _ => none

/-- A name, alone or as the only key of an object with a null value. -/
def name? : Json → Option String
  | .string s => some s
  | .object [(s, .null)] => some s
  | _ => none

def array? : Json → Option (List Json)
  | .array items => some items
  | _ => none

/-- A natural number below a bound. -/
def natBelow? (bound : Nat) : Json → Option Nat
  | .natural n => if n < bound then some n else none
  | _ => none

/-- The values of a key, in order. -/
def valuesOf (pairs : List (String × Json)) (key : String) : List Json :=
  (pairs.filter (·.1 == key)).map (·.2)

/-- The value of a key that stands at most once: absent, or there. -/
def single? (pairs : List (String × Json)) (key : String) : Option (Option Json) :=
  match valuesOf pairs key with
  | [] => some none
  | [j] => some (some j)
  | _ => none

/-- The named members of a record, each present or absent: an object with other keys ignored and
none of these repeated, or an array that gives the first of them in order. -/
def members? (names : List String) : Json → Option (List (Option Json))
  | .object pairs => names.mapM (single? pairs)
  | .array items =>
    if items.length ≤ names.length then
      some (items.map some ++ List.replicate (names.length - items.length) none)
    else none
  | _ => none

/-- A member that may be left out. -/
def orElse {α : Type} (absent : α) (read : Json → Option α) : Option Json → Option α
  | none => some absent
  | some j => read j

/-- A member that must be there. -/
def required {α : Type} (read : Json → Option α) : Option Json → Option α
  | none => none
  | some j => read j

end Json

end AbiSpan
