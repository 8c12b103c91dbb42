import AbiSpan.Interface
import AbiSpan.Plan

/-!
Picking ranges of call data.

Call data is the selector of a function and then its arguments, a buffer of its own with
pointers that count from behind the selector. Where the arguments lie is kept under the
selector, from one query to the next.
-/

namespace AbiSpan

inductive CallPart where
  | signature
  | argument (name : String)
deriving DecidableEq, Repr

/-- The node of the call data, in its record, and the function that is called. -/
structure CallScope where
  encoded : Bytes
  node : Node
  function : Function
  limits : Limits

namespace CallScope

/-- The arguments of calls, under the selectors of their functions. -/
abbrev Located := List (Selector × List Node)

/-- The bytes behind the selector. -/
def payload (s : CallScope) : Except QueryFault Bytes :=
  match s.node.slice? s.encoded with
  | none => .error (.missingNode "call data")
  | some bytes =>
    if selectorSize ≤ bytes.length then .ok (bytes.drop selectorSize)
    else .error (.callDataTooShort bytes.length)

/-- Where the arguments lie, counted from behind the selector. -/
def tree (s : CallScope) : Picking Located (List Node) := do
  match (← get).located.lookup s.function.selector with
  | some nodes => return nodes
  | none =>
    let payload ← MonadExcept.ofExcept s.payload
    let types ← MonadExcept.ofExcept (Param.rowTypes s.function.inputs)
    let nodes ← Picking.locate { bytes := payload, limits := s.limits } types
    Picking.notify (.callLocated s.function.signature nodes.length)
    modify fun state =>
      { state with located := (s.function.selector, nodes) :: state.located }
    return nodes

def argument (s : CallScope) (name : String) : Picking Located Span := do
  match s.function.inputs.findIdx? (·.name == name) with
  | none => throw (.unknownArgument name ("function " ++ s.function.signature))
  | some i =>
    let nodes ← s.tree
    match nodes[i]? with
    | some n => return (← MonadExcept.ofExcept n.span).shift (s.node.offset + selectorSize)
    | none => throw (.countMismatch s.function.inputs.length nodes.length)

/-- The range of the selector in call data. -/
def selectorSpan (node : Node) : Except QueryFault Span :=
  let size := node.size.getD 0
  if size < selectorSize then .error (.callDataTooShort size)
  else .ok { offset := node.offset, size := selectorSize }

/-- The range of a part. -/
def range (s : CallScope) : CallPart → Picking Located Span
  | .signature => MonadExcept.ofExcept (selectorSpan s.node)
  | .argument name => do
    let span ← s.argument name
    Picking.notify (.callArgument name span)
    return span

/-- Selects the range of a part. -/
def pick (s : CallScope) (part : CallPart) : Picking Located Span := do
  Picking.select (← s.range part)

end CallScope

end AbiSpan
