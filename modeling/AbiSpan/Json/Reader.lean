import AbiSpan.Json.Shape
import AbiSpan.Json.Stray

/-!
Reading JSON text: one value, and nothing behind it but blanks.

A text is read for a shape. Where the shape is `any` throughout, the grammar of JSON is all there
is to it.
-/

namespace AbiSpan.Json.Reader

def literal? (word : List Char) (j : Json) (cs : List Char) : Option (Json × List Char) :=
  if word.isPrefixOf cs then some (j, cs.drop word.length) else none

/-- An object, garbled as a whole if one of its keys is. -/
def objectOf (pairs : List (Option String × Json)) : Json :=
  match pairs.mapM fun (k, j) => k.map (·, j) with
  | some pairs => .object pairs
  | none => .garbled

mutual

/-- A value behind blanks. -/
def value? : (fuel : Nat) → Shape → List Char → Option (Json × List Char)
  | 0, _, _ => none
  | fuel + 1, s, cs =>
    match skipBlanks cs with
    | '[' :: cs =>
      match s with
      | .fixedBytes length => smallNumbers? length cs
      | s =>
        match skipBlanks cs with
        | ']' :: rest => some (.array [], rest)
        | cs => do
          let (items, rest) ← items? fuel s 0 cs
          some (.array items, rest)
    | '\x7b' :: cs =>
      match skipBlanks cs with
      | '\x7d' :: rest => some (.object [], rest)
      | cs => do
        let (pairs, rest) ← pairs? fuel s cs
        some (objectOf pairs, rest)
    | '"' :: cs => do
      let (text, rest) ← quoted? cs
      match text with
      | some text => some (.string text, rest)
      | none => some (.garbled, rest)
    | 't' :: cs => literal? ['r', 'u', 'e'] (.bool true) cs
    | 'f' :: cs => literal? ['a', 'l', 's', 'e'] (.bool false) cs
    | 'n' :: cs => literal? ['u', 'l', 'l'] .null cs
    | cs => number? cs

/-- Values between commas, the first of them at a place, and the closing bracket. -/
def items? : (fuel : Nat) → Shape → (place : Nat) → List Char → Option (List Json × List Char)
  | 0, _, _, _ => none
  | fuel + 1, s, place, cs => do
    let (j, rest) ← value? fuel (s.ofPlace place) cs
    match skipBlanks rest with
    | ']' :: rest => some ([j], rest)
    | ',' :: rest => do
      let (js, rest) ← items? fuel s (place + 1) rest
      some (j :: js, rest)
    | _ => none

/-- Keys with values between commas, and the closing brace. -/
def pairs? : (fuel : Nat) → Shape → List Char → Option (List (Option String × Json) × List Char)
  | 0, _, _ => none
  | fuel + 1, s, cs =>
    match skipBlanks cs with
    | '"' :: cs => do
      let (key, rest) ← quoted? cs
      match skipBlanks rest with
      | ':' :: rest => do
        let (j, rest) ← value? fuel (s.ofKey key) rest
        match skipBlanks rest with
        | '\x7d' :: rest => some ([(key, j)], rest)
        | ',' :: rest => do
          let (ps, rest) ← pairs? fuel s rest
          some ((key, j) :: ps, rest)
        | _ => none
      | _ => none
    | _ => none

end

end AbiSpan.Json.Reader

namespace AbiSpan.Json

/-- The value that a text writes, read for a shape. -/
def ofShapedString? (s : Shape) (text : String) : Option Json := do
  let cs := text.toList
  let (j, rest) ← Reader.value? (2 * cs.length + 2) s cs
  if (Reader.skipBlanks rest).isEmpty then some j else none

/-- The value that a text writes. -/
def ofString? (text : String) : Option Json := ofShapedString? .any text

end AbiSpan.Json
