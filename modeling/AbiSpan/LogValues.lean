import AbiSpan.Interface
import AbiSpan.Transaction
import AbiSpan.Value.Decoder

/-!
The values of a log of an event.

The topics of a log are the hash of its event, unless the event is anonymous, and then one word
for each indexed input. Values of one word stand in their topic; of any other the topic holds
only a hash. The inputs that are not indexed stand in the data.
-/

namespace AbiSpan

/-- The values of a log. -/
structure LogValues where
  /-- The hash of the event; anonymous events have none. -/
  selector : Option Topic
  indexed : List Value
  body : List Value
deriving BEq

inductive LogFault where
  | badType (fault : TypeFault)
  | topicCount (expected got : Nat)
  | wrongEvent
  | decoding (fault : DecodeFault)
  | undeclared (hash : Topic)
deriving DecidableEq

namespace LogFault

def message : LogFault → String
  | .badType fault => fault.message
  | .topicCount expected got =>
    s!"invalid log topic list length: expected {expected} topics, got {got}"
  | .wrongEvent => "log topic is not the selector of the event"
  | .decoding fault => fault.message
  | .undeclared hash => s!"event {Hex.marked hash.bytes} is not declared in the contract ABI"

end LogFault

namespace Event

/-- A log can carry this many topics. -/
def maxTopics : Nat := 4

/-- A word of a topic as the value of an indexed input. -/
def topicValue (t : AbiType) (w : Topic) : Value :=
  if t.isWord then Value.ofWord t w.bytes else .fixedBytes wordSize w.bytes

/-- The types of the inputs, the first that is not readable being the fault. -/
def inputTypes (e : Event) : Except LogFault (List (Bool × AbiType)) :=
  e.inputs.mapM fun p =>
    match p.type with
    | .ok t => .ok (p.indexed, t)
    | .error fault => .error (.badType fault)

/-- The values of a log of the event. -/
def decode (e : Event) (log : Log) : Except LogFault LogValues := do
  let types ← e.inputTypes
  let indexed := (types.filter (·.1)).map (·.2)
  let body := (types.filter fun t => !t.1).map (·.2)
  let needed := e.leadingTopics + indexed.length
  if maxTopics < needed then throw (.topicCount maxTopics needed)
  if log.topics.length ≠ needed then throw (.topicCount needed log.topics.length)
  if ¬ e.anonymous ∧ log.topics.head? ≠ some e.selector then throw .wrongEvent
  let values ←
    match Value.decodeRow body log.data with
    | .ok vs => .ok vs
    | .error fault => .error (.decoding fault)
  return {
    selector := if e.anonymous then none else some e.selector
    indexed := List.zipWith topicValue indexed (log.topics.drop e.leadingTopics)
    body := values }

end Event

end AbiSpan
