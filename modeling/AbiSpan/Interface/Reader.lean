import AbiSpan.Interface
import AbiSpan.Json.Reader

/-!
Reading an interface from its JSON document: an array of items, each with its sort under `type`.

Errors, constructors and the two nameless functions are checked and left out. Keys that an item
does not know are ignored, but everything in an item must be sound. Members may stand in an array
instead of an object wherever their number is fixed.
-/

namespace AbiSpan.Interface.Reader

/-- Names are empty or identifiers. -/
def nameOfJson? (j : Json) : Option String := do
  let s ← j.string?
  if s = "" ∨ TypeText.isName s then some s else none

/-- A value that may be null or left out. -/
def optional? {α : Type} (read : Json → Option α) : Option Json → Option (Option α)
  | none => some none
  | some .null => some none
  | some j => (read j).map some

/-- A type that is readable, or made of tuples where there are components. -/
def typeTextFits (s : String) (components : List Param) : Bool :=
  if components.isEmpty then (TypeText.ofString? s).isSome
  else Param.tupleWord.isPrefixOf s.toList

/-- The members of an input or an output, in the order that an array has. -/
def paramMembers : List String := ["name", "type", "indexed", "internalType", "components"]

/-- Only the inputs of events may say whether they are indexed. -/
def paramOf? (ofEvent : Bool) (j : Json) (components : List Param) : Option Param := do
  match ← j.members? paramMembers with
  | [name, typeText, indexed, internalType, _] =>
    let name ← Json.orElse "" nameOfJson? name
    let typeText ← Json.required Json.string? typeText
    let indexed ← optional? Json.bool? indexed
    let _ ← optional? Json.string? internalType
    if indexed.isSome ∧ ¬ ofEvent then none
    if typeTextFits typeText components then
      some { name, typeText, indexed := indexed.getD false, components }
    else none
  | _ => none

mutual

/-- An input or an output. -/
def param? (ofEvent : Bool) : Json → Option Param
  | .object pairs => do paramOf? ofEvent (.object pairs) (← componentsIn? pairs)
  | .array items => do
    paramOf? ofEvent (.array items) (← componentsAt? (paramMembers.length - 1) items)
  | _ => none

/-- The components among the members of an object. -/
def componentsIn? : List (String × Json) → Option (List Param)
  | [] => some []
  | (key, j) :: pairs => do
    if key = "components" then
      match j with
      | .array items => params? false items
      | _ => none
    else componentsIn? pairs

/-- The components at a place of an array. -/
def componentsAt? : Nat → List Json → Option (List Param)
  | _, [] => some []
  | 0, j :: _ =>
    match j with
    | .array items => params? false items
    | _ => none
  | place + 1, _ :: js => componentsAt? place js

def params? (ofEvent : Bool) : List Json → Option (List Param)
  | [] => some []
  | j :: js => do return (← param? ofEvent j) :: (← params? ofEvent js)

end

def paramsOfJson? (ofEvent : Bool) (j : Json) : Option (List Param) := do
  params? ofEvent (← j.array?)

/-! ### Items -/

/-- One word, or the only key of an object with nothing under it. -/
def callWord? : Json → Option String
  | .object [(word, .object [])] => some word
  | j => j.name?

/-- What calling an item may do is said in one word or in two flags that must not both hold. -/
def callKindFits (pairs : List (String × Json)) : Option Unit := do
  let word ← optional? callWord? (← Json.single? pairs "stateMutability")
  let payable ← optional? Json.bool? (← Json.single? pairs "payable")
  let constant ← optional? Json.bool? (← Json.single? pairs "constant")
  match word with
  | some w => if w ∈ ["pure", "view", "nonpayable", "payable"] then some () else none
  | none => if payable = some true ∧ constant = some true then none else some ()

inductive Item where
  | event (e : Event)
  | function (f : Function)
  | error
  | constructor
  | fallback
  | receive
deriving BEq

/-- An event without its sort. -/
def event? (j : Json) : Option Item := do
  match ← j.members? ["name", "inputs", "anonymous"] with
  | [name, inputs, anonymous] =>
    return .event {
      name := ← Json.required nameOfJson? name
      inputs := ← Json.required (paramsOfJson? true) inputs
      anonymous := ← Json.required Json.bool? anonymous }
  | _ => none

/-- An error without its sort. -/
def error? (j : Json) : Option Item := do
  match ← j.members? ["name", "inputs"] with
  | [name, inputs] =>
    let _ ← Json.required nameOfJson? name
    let _ ← Json.required (paramsOfJson? false) inputs
    return .error
  | _ => none

def function? (pairs : List (String × Json)) : Option Item := do
  callKindFits pairs
  let name ← Json.required nameOfJson? (← Json.single? pairs "name")
  let inputs ← Json.required (paramsOfJson? false) (← Json.single? pairs "inputs")
  let _ ← Json.required (paramsOfJson? false) (← Json.single? pairs "outputs")
  return .function { name, inputs }

def constructor? (pairs : List (String × Json)) : Option Item := do
  callKindFits pairs
  let _ ← Json.required (paramsOfJson? false) (← Json.single? pairs "inputs")
  return .constructor

/-- An item is an object. Events and errors may be arrays, the sort coming first. -/
def item? : Json → Option Item
  | .object pairs => do
    match ← (← (← Json.single? pairs "type")).string? with
    | "event" => event? (.object pairs)
    | "error" => error? (.object pairs)
    | "function" => function? pairs
    | "constructor" => constructor? pairs
    | "fallback" => callKindFits pairs; return .fallback
    | "receive" => callKindFits pairs; return .receive
    | _ => none
  | .array (.string sort :: members) =>
    match sort with
    | "event" => event? (.array members)
    | "error" => error? (.array members)
    | _ => none
  | _ => none

def eventOf? : Item → Option Event
  | .event e => some e
  | _ => none

def functionOf? : Item → Option Function
  | .function f => some f
  | _ => none

def ofJson? (j : Json) : Option Interface := do
  let docs ← j.array?
  if ¬ docs.all (Json.sound (Json.maxDepth - 1)) then none
  let items ← docs.mapM item?
  if items.count .constructor ≤ 1 ∧ items.count .fallback ≤ 1 ∧ items.count .receive ≤ 1 then
    some {
      events := (items.filterMap eventOf?).mergeSort fun a b => a.name ≤ b.name
      functions := (items.filterMap functionOf?).mergeSort fun a b => a.name ≤ b.name }
  else none

end AbiSpan.Interface.Reader

namespace AbiSpan

/-- The interface that a JSON document declares. -/
def Interface.ofString? (s : String) : Option Interface := do
  Interface.Reader.ofJson? (← Json.ofString? s)

end AbiSpan
