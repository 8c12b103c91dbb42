import AbiSpan.Session.Calls
import AbiSpan.Session.Events

/-!
The operations of a session. A run goes on after an operation that fails.
-/

namespace AbiSpan

inductive Operation where
  | staticField (f : Field)
  /-- Adds a range as it is given. -/
  | manual (s : Span)
  | functionSignature
  | resolveEvent (query : String) (choose : LogChoice) (configure : Occurrence → Plan LogPart)
  | resolveAllEvents (query : String) (choose : LogChoice) (configure : Occurrence → Plan LogPart)
  | eventSignature (query : String) (choose : LogChoice)
  | eventArgument (query : String) (choose : LogChoice) (name : String)
  | resolveFunction (query : String) (configure : Function → Plan CallPart)
  | functionArgument (query name : String)
  | setSource (source : Source)

namespace Operation

def query : Operation → Query Unit
  | .staticField f => Query.staticField f
  | .manual s => Query.gather [s]
  | .functionSignature => Query.functionSignature
  | .resolveEvent query choose configure => Query.resolveEvent query choose configure
  | .resolveAllEvents query choose configure => Query.resolveAllEvents query choose configure
  | .eventSignature query choose =>
    Query.resolveEvent query choose fun _ => Plan.single .signature
  | .eventArgument query choose name =>
    Query.resolveEvent query choose fun _ => Plan.single (.argument name)
  | .resolveFunction query configure => Query.resolveFunction query configure
  | .functionArgument query name =>
    Query.resolveFunction query fun _ => Plan.single (.argument name)
  | .setSource source => Query.setSource source

end Operation

namespace Session

/-- Performs an operation. -/
def perform (s : Session) (o : Operation) : Except QueryFault Unit × Session := o.query.run.run s

/-- Performs operations in order, the failing ones too. -/
def performAll (s : Session) (os : List Operation) : Session :=
  os.foldl (fun s o => (s.perform o).2) s

end Session

end AbiSpan
