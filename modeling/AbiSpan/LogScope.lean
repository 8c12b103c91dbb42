import AbiSpan.Interface
import AbiSpan.Plan

/-!
Picking ranges of one log.

The node of a log has three children: who emitted it, its topics, and its data. An indexed
argument lies in its topic. The others lie in the data, which is a buffer of its own with
pointers that count from its start; it is located once, when it is first needed.
-/

namespace AbiSpan

inductive LogPart where
  | address
  | signature
  | argument (name : String)
deriving DecidableEq, Repr

/-- Where an argument of an event stands. -/
inductive EventPlace where
  | topic (i : Nat)
  | data (i : Nat)
deriving DecidableEq, Repr

/-- The place of the first input of a name. -/
def Event.place? (e : Event) (name : String) : Option EventPlace :=
  let before := e.inputs.takeWhile (·.name != name)
  (e.inputs.find? (·.name == name)).map fun p =>
    if p.indexed then .topic (e.leadingTopics + before.countP (·.indexed))
    else .data (before.countP fun q => !q.indexed)

/-- The node of a log, in its record, and the event that the log is of. -/
structure LogScope where
  encoded : Bytes
  node : Node
  event : Event
  limits : Limits

namespace LogScope

/-- A child of the node of the log, by its number. -/
def part (s : LogScope) (i : Nat) (name : String) : Except QueryFault Node :=
  match s.node.child? i with
  | some n => .ok n
  | none => .error (.missingNode name)

def emitter (s : LogScope) : Except QueryFault Node := s.part 0 "log address"

def topic (s : LogScope) (i : Nat) : Except QueryFault Node := do
  match (← s.part 1 "log topics").child? i with
  | some n => .ok n
  | none => .error (.missingNode "log topic")

def data (s : LogScope) : Except QueryFault Node := s.part 2 "log data"

/-- The data of the log, or nothing yet. -/
abbrev Located := Option (List Node)

/-- Where the arguments in the data lie, counted from the start of the data. -/
def dataTree (s : LogScope) (data : Node) : Picking Located (List Node) := do
  match (← get).located with
  | some nodes => return nodes
  | none =>
    match data.slice? s.encoded with
    | none => throw (.missingNode "log data")
    | some payload =>
      let types ← MonadExcept.ofExcept (Param.rowTypes s.event.bodyInputs)
      let nodes ← Picking.locate { bytes := payload, limits := s.limits } types
      modify fun state => { state with located := some nodes }
      return nodes

/-- The range of an argument in the data. -/
def dataArgument (s : LogScope) (i : Nat) : Picking Located Span := do
  let data ← MonadExcept.ofExcept s.data
  let nodes ← s.dataTree data
  match nodes[i]? with
  | some n => return (← MonadExcept.ofExcept n.span).shift data.offset
  | none => throw (.countMismatch (i + 1) nodes.length)

def argument (s : LogScope) (name : String) : Picking Located Span := do
  match s.event.place? name with
  | none => throw (.unknownArgument name ("event " ++ s.event.signature))
  | some (.topic i) => MonadExcept.ofExcept (s.topic i >>= Node.span)
  | some (.data i) => s.dataArgument i

/-- The range of a part. -/
def range (s : LogScope) : LogPart → Picking Located Span
  | .address => MonadExcept.ofExcept (s.emitter >>= Node.span)
  | .signature =>
    if s.event.anonymous then
      throw (.unsupported ("signature topic of anonymous event " ++ s.event.name)
        "anonymous events do not emit their signature hash")
    else MonadExcept.ofExcept (s.topic 0 >>= Node.span)
  | .argument name => do
    let span ← s.argument name
    Picking.notify (.eventArgument name span)
    return span

/-- Selects the range of a part. -/
def pick (s : LogScope) (part : LogPart) : Picking Located Span := do
  Picking.select (← s.range part)

end LogScope

end AbiSpan
