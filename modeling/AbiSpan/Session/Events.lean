import AbiSpan.Session

/-!
Queries for events.

A query looks through the logs of the receipt in order, and stops at the first that is at fault.
Only then is it decided what the logs found are good for, so no range is gathered unless every
plan that is run succeeds.
-/

namespace AbiSpan

/-- The caller's choice among the logs that a query names: the log, its values, its number. -/
abbrev LogChoice := Log → LogValues → Nat → Bool

/-- A log that a query may name, with its number and its topic zero. -/
structure Candidate where
  index : Nat
  log : Log
  hash : Topic

/-- Logs without topics are no candidates, and if a hash is asked for, no logs of another. -/
def Receipt.candidates (r : Receipt) (key : ItemKey) : List Candidate :=
  r.logs.zipIdx.filterMap fun (log, index) =>
    match log.topics.head? with
    | some hash =>
      if key.isHash && !key.names hash.bytes "" "" then none else some { index, log, hash }
    | none => none

namespace Query

/-- The event that a candidate is of, if the key names it and the caller chooses the log. -/
def examine (key : ItemKey) (choose : LogChoice) (c : Candidate) : Query (Option Occurrence) := do
  let i ← interfaceOf c.log.address
  match i.occurrence? (← record).library key c.log c.hash with
  | .error fault => throw (.undecodableLog c.index c.log.address.checksummed fault.message)
  | .ok none => return none
  | .ok (some (event, values)) =>
    write (.judged c.index values)
    return if choose c.log values c.index then some { index := c.index, event, values } else none

def examineAll (key : ItemKey) (choose : LogChoice) : List Candidate → Query (List Occurrence)
  | [] => return []
  | c :: cs => do
    let found ← examine key choose c
    return found.toList ++ (← examineAll key choose cs)

/-- The chosen logs that a query names. -/
def search (query : String) (choose : LogChoice) : Query (List Occurrence) := do
  let key ← MonadExcept.ofExcept (ItemKey.ofEventQuery query)
  examineAll key choose ((← record).receipt.candidates key)

/-- The node of a log. -/
def logNode (r : Record) (index : Nat) : Except QueryFault Node :=
  match r.field? .logs with
  | none => .error (.missingNode "logs field")
  | some logs =>
    match logs.child? index with
    | some n => .ok n
    | none => .error (.missingLog index)

/-- Runs a plan over a log. -/
def pickLog (configure : Occurrence → Plan LogPart) (o : Occurrence) : Query (List Span) := do
  let r ← record
  let node ← MonadExcept.ofExcept (logNode r o.index)
  let scope : LogScope :=
    { encoded := r.encoded, node, event := o.event, limits := r.settings.logDataLimits }
  let (picked, state) := ((configure o).run scope.pick).run { located := none }
  state.notices.forM notify
  write (.pickedLog o picked.outcomes)
  MonadExcept.ofExcept (picked.verdict.map fun _ => state.spans)

def pickLogs (configure : Occurrence → Plan LogPart) : List Occurrence → Query (List Span)
  | [] => return []
  | o :: os => return (← pickLog configure o) ++ (← pickLogs configure os)

/-- Runs a plan over the only log found; finding none is no fault. -/
def resolveEvent (query : String) (choose : LogChoice) (configure : Occurrence → Plan LogPart) :
    Query Unit := do
  match ← search query choose with
  | [] => notify (.noLogMatched query)
  | [o] => gather (← pickLog configure o)
  | os => throw (.ambiguousEvent query os.length)

/-- Runs a plan over every log found. -/
def resolveAllEvents (query : String) (choose : LogChoice)
    (configure : Occurrence → Plan LogPart) : Query Unit := do
  let os ← search query choose
  notify (.logsMatched query os.length)
  gather (← pickLogs configure os)

end Query

end AbiSpan
