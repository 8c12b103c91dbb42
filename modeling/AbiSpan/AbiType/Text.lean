import AbiSpan.AbiType

/-!
Reading a type from text.

First the shape: a name or a bracketed list of members, then array sizes. Then the name: which
elementary type it stands for. A name with a dot in it is a user-defined value type and counts
as `uint8`.
-/

namespace AbiSpan

/-- The shape of a type's text, names not yet looked up; a size is absent in `[]`. -/
inductive TypeText where
  | named (name : String) (sizes : List (Option Nat))
  | tuple (members : List TypeText) (sizes : List (Option Nat))
deriving Inhabited

/-- Why a text is not a type. -/
inductive TypeFault where
  | malformed
  | badSize (name : String)
  | unknownName (name : String)
deriving DecidableEq, Repr

def TypeFault.message : TypeFault → String
  | .malformed => "malformed type"
  | .badSize name => "invalid size for type: " ++ name
  | .unknownName name => "invalid type string: " ++ name

namespace TypeText

def isNameStart (c : Char) : Bool := c.isAlpha || c == '$' || c == '_'

def isNameChar (c : Char) : Bool := isNameStart c || c.isDigit

def isBlank (c : Char) : Bool := c == ' ' || c == '\t'

/-- The longest name at the front, and what follows. -/
def name? : List Char → Option (String × List Char)
  | [] => none
  | c :: cs =>
    if isNameStart c then
      some (String.ofList (c :: cs.takeWhile isNameChar), cs.dropWhile isNameChar)
    else none

/-- The text is one whole name. -/
def isName (s : String) : Bool := (name? s.toList).any fun (_, rest) => rest.isEmpty

def decimal (ds : List Char) : Nat := ds.foldl (fun n c => n * 10 + (c.toNat - 48)) 0

/-- One bracketed array size at the front. -/
def size? : List Char → Option (Option Nat × List Char)
  | '[' :: cs =>
    match cs.takeWhile Char.isDigit, cs.dropWhile Char.isDigit with
    | [], ']' :: rest => some (none, rest)
    | ds, ']' :: rest =>
      let n := decimal ds
      if 0 < n ∧ n < offsetBound then some (some n, rest) else none
    | _, _ => none
  | _ => none

/-- Up to `fuel` array sizes. -/
def sizes : (fuel : Nat) → List Char → List (Option Nat) × List Char
  | 0, cs => ([], cs)
  | fuel + 1, cs =>
    match size? cs with
    | some (s, rest) =>
      let (ss, rest) := sizes fuel rest
      (s :: ss, rest)
    | none => ([], cs)

/-- What stands behind the opening bracket of a tuple. -/
def opened? : List Char → Option (List Char)
  | '(' :: cs => some cs
  | 't' :: 'u' :: 'p' :: 'l' :: 'e' :: '(' :: cs => some cs
  | _ => none

/-- An elementary name, or `uint8` where a dot follows the name. -/
def stemName? (cs : List Char) : Option (String × List Char) := do
  let (n, rest) ← name? cs
  match rest with
  | '.' :: rest =>
    match name? rest with
    | some (_, rest) => some ("uint8", rest)
    | none => some ("uint8", rest)
  | _ => some (n, rest)

/-- The text behind a closing bracket, which blanks may come before. -/
def closed? (cs : List Char) : Option (List Char) :=
  match cs.dropWhile isBlank with
  | ')' :: rest => some rest
  | _ => none

/-- At least one member and the closing bracket; a comma may stand before the bracket. -/
def membersWith (p : List Char → Option (TypeText × List Char)) :
    (fuel : Nat) → List Char → Option (List TypeText × List Char)
  | 0, _ => none
  | fuel + 1, cs => do
    let (t, rest) ← p cs
    let next := match rest with
      | ',' :: rest => rest
      | _ => rest
    match closed? next, rest with
    | some rest, _ => some ([t], rest)
    | none, ',' :: rest => do
      let (ts, rest) ← membersWith p fuel (rest.dropWhile isBlank)
      some (t :: ts, rest)
    | none, _ => none

/-- A type at the front of the text, inside at most `room` more tuples. -/
def front? (room : Nat) (cs : List Char) : Option (TypeText × List Char) :=
  match opened? cs with
  | some inner => do
    let (ts, rest) ←
      match closed? inner with
      | some rest => some ([], rest)
      | none =>
        match room with
        | 0 => none
        | room + 1 => membersWith (front? room) inner.length (inner.dropWhile isBlank)
    let (ss, rest) := sizes rest.length rest
    some (.tuple ts ss, rest)
  | none => do
    let (n, rest) ← stemName? cs
    let (ss, rest) := sizes rest.length rest
    some (.named n ss, rest)

/-- Members may stand inside this many tuples. -/
def maxNesting : Nat := 79

/-- Reads a whole text. -/
def ofString? (s : String) : Option TypeText := do
  let (t, rest) ← front? maxNesting s.toList
  if rest.isEmpty then some t else none

def sizesOf : TypeText → List (Option Nat)
  | .named _ ss => ss
  | .tuple _ ss => ss

/-- Arrays around a type, the first size innermost. -/
def wrap (t : AbiType) (ss : List (Option Nat)) : AbiType :=
  ss.foldl (fun t s => match s with
    | none => .array t
    | some n => .fixedArray t n) t

/-- The number after a type name's letters. -/
def suffix? (stem : List Char) (name : String) : Option (Option Nat) :=
  if stem.isPrefixOf name.toList then
    let ds := name.toList.drop stem.length
    some (if ds ≠ [] ∧ ds.all Char.isDigit then some (decimal ds) else none)
  else none

/-- The elementary type of a name. -/
def elementary (name : String) : Except TypeFault AbiType :=
  let integer (mk : Nat → AbiType) (size : Option Nat) : Except TypeFault AbiType :=
    match size with
    | some n => if 0 < n ∧ n ≤ 256 ∧ n % 8 = 0 then .ok (mk n) else .error (.badSize name)
    | none => .error (.badSize name)
  match name with
  | "address" => .ok .address
  | "bool" => .ok .bool
  | "string" => .ok .string
  | "bytes" => .ok .bytes
  | "function" => .ok .function
  | "uint" => .ok (.uint 256)
  | "int" => .ok (.int 256)
  | _ =>
    match suffix? ['b', 'y', 't', 'e', 's'] name with
    | some (some n) => if 0 < n ∧ n ≤ 32 then .ok (.fixedBytes n) else .error (.badSize name)
    | some none => .error (.badSize name)
    | none =>
      match suffix? ['u', 'i', 'n', 't'] name with
      | some size => integer .uint size
      | none =>
        match suffix? ['i', 'n', 't'] name with
        | some size => integer .int size
        | none => .error (.unknownName name)

mutual

/-- Looks every name up, first to last. -/
def resolve : TypeText → Except TypeFault AbiType
  | .named n ss => return wrap (← elementary n) ss
  | .tuple ts ss => return wrap (.tuple (← resolveAll ts)) ss

def resolveAll : List TypeText → Except TypeFault (List AbiType)
  | [] => .ok []
  | t :: ts => return (← t.resolve) :: (← resolveAll ts)

end

end TypeText

/-- The type that a text denotes. -/
def AbiType.ofString (s : String) : Except TypeFault AbiType :=
  match TypeText.ofString? s with
  | some t => t.resolve
  | none => .error .malformed

end AbiSpan
