import AbiSpan.Session

/-!
Queries for the function that a transaction calls.
-/

namespace AbiSpan

/-- The only function that a key names. -/
def Interface.function (i : Interface) (key : ItemKey) (query : String) (a : Address) :
    Except QueryFault Function :=
  match i.functions.filter fun f => key.names f.selector.bytes f.signature f.name with
  | [] => .error (.functionNotFound query a.checksummed)
  | [f] => .ok f
  | fs => .error (.ambiguousFunction query fs.length)

namespace Query

/-- The contract that a transaction calls, and the selector it calls it with. -/
def callTarget (tx : Transaction) : Except QueryFault (Address × Selector) :=
  if tx.input.isEmpty then .error .noCallData
  else match tx.destination, tx.selector? with
    | none, _ => .error .noDestination
    | some _, none => .error (.callDataTooShort tx.input.length)
    | some a, some selector => .ok (a, selector)

/-- The function that a query names; the transaction must call that one. -/
def calledFunction (query : String) : Query Function := do
  let (a, selector) ← MonadExcept.ofExcept (callTarget (← record).tx)
  let i ← interfaceOf a
  let key ← MonadExcept.ofExcept (ItemKey.ofFunctionQuery query)
  let f ← MonadExcept.ofExcept (i.function key query a)
  if f.selector ≠ selector then
    throw (.selectorMismatch f.signature (Hex.text f.selector.bytes) (Hex.text selector.bytes))
  return f

/-- Runs a plan over the call data of a function. -/
def runCalled (configure : Function → Plan CallPart) (f : Function) : Query Unit := do
  let r ← record
  let node ← MonadExcept.ofExcept (callNode r)
  let scope : CallScope :=
    { encoded := r.encoded, node, function := f, limits := r.settings.limits }
  let (picked, state) := ((configure f).run scope.pick).run { located := (← get).callTrees }
  modify fun s => { s with callTrees := state.located }
  state.notices.forM notify
  write (.pickedCall f picked.outcomes)
  let spans ← MonadExcept.ofExcept (picked.verdict.map fun _ => state.spans)
  notify (.callResolved f.signature spans.length)
  gather spans

/-- Runs a plan over the call data of the function that a query names. -/
def resolveFunction (query : String) (configure : Function → Plan CallPart) : Query Unit := do
  runCalled configure (← calledFunction query)

end Query

end AbiSpan
