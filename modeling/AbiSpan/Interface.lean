import AbiSpan.Address
import AbiSpan.AbiType.Text
import AbiSpan.Fault

/-!
What a contract declares: its events and functions, and the text and hash they are known by.

A signature is the name with the types of the inputs as they are written; an input with
components is written as the bracketed types of those.
-/

namespace AbiSpan

structure Param where
  name : String
  typeText : String
  /-- The argument of an event stands in a topic of its own. -/
  indexed : Bool
  /-- The members, where the type is made of tuples. -/
  components : List Param
deriving BEq, Inhabited

namespace Param

/-- Inputs with components have a type that begins so. -/
def tupleWord : List Char := ['t', 'u', 'p', 'l', 'e']

mutual

/-- The type as it stands in a signature. -/
def signatureType : Param → String
  | ⟨_, typeText, _, []⟩ => typeText
  | ⟨_, typeText, _, p :: ps⟩ =>
    "(" ++ ",".intercalate (signatureTypes (p :: ps)) ++ ")" ++
      String.ofList (typeText.toList.drop tupleWord.length)

def signatureTypes : List Param → List String
  | [] => []
  | p :: ps => p.signatureType :: signatureTypes ps

end

mutual

/-- The type that the input has. -/
def type : Param → Except TypeFault AbiType
  | ⟨_, typeText, _, []⟩ => AbiType.ofString typeText
  | ⟨_, typeText, _, p :: ps⟩ =>
    match TypeText.ofString? typeText with
    | some t => return TypeText.wrap (.tuple (← types (p :: ps))) t.sizesOf
    | none => .error .malformed

def types : List Param → Except TypeFault (List AbiType)
  | [] => .ok []
  | p :: ps => return (← p.type) :: (← types ps)

end

/-- The types of a row of inputs; an input without a type is at fault. -/
def rowTypes (ps : List Param) : Except QueryFault (List AbiType) :=
  ps.mapM fun p =>
    match p.type with
    | .ok t => .ok t
    | .error fault => .error (.badDescriptor p.typeText fault.message)

end Param

/-- The text an event or a function is hashed by. -/
def signatureText (name : String) (inputs : List Param) : String :=
  name ++ "(" ++ ",".intercalate (inputs.map Param.signatureType) ++ ")"

structure Event where
  name : String
  inputs : List Param
  /-- Logs of the event do not carry its hash. -/
  anonymous : Bool
deriving BEq, Inhabited

namespace Event

def signature (e : Event) : String := signatureText e.name e.inputs

/-- The hash that stands in topic zero of the event's logs. -/
def selector (e : Event) : Topic := Keccak.hashText e.signature

def bodyInputs (e : Event) : List Param := e.inputs.filter fun p => !p.indexed

/-- How many topics come before those of the inputs. -/
def leadingTopics (e : Event) : Nat := if e.anonymous then 0 else 1

end Event

structure Function where
  name : String
  inputs : List Param
deriving BEq, Inhabited

namespace Function

def signature (f : Function) : String := signatureText f.name f.inputs

/-- The first bytes of the hash of the signature. -/
def selector (f : Function) : Selector :=
  ⟨(Keccak.hashText f.signature).bytes.take selectorSize, by simp [selectorSize]⟩

end Function

/-- Events and functions, each in the order of their names and, of one name, as declared. -/
structure Interface where
  events : List Event
  functions : List Function
deriving BEq, Inhabited

end AbiSpan
