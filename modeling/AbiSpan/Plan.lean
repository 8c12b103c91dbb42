import AbiSpan.Layout

/-!
Picking parts, one after the other.

A plan says which part to pick first, and from how that ends what to do next: to go on, to stop,
or to give up with a fault of any kind. The ranges selected on the way are gathered in a list.
-/

namespace AbiSpan

inductive Plan (Part : Type) where
  | done
  | giveUp (fault : QueryFault)
  | pick (part : Part) (next : Except QueryFault Span → Plan Part)

/-- What picking changes: the trees located and the ranges selected so far, and the notices. -/
structure PickState (Located : Type) where
  located : Located
  spans : List Span := []
  notices : Array Notice := #[]

abbrev Picking (Located : Type) := ExceptT QueryFault (StateM (PickState Located))

namespace Picking

variable {Located : Type}

def notify (n : Notice) : Picking Located Unit :=
  modify fun s => { s with notices := s.notices.push n }

/-- Puts a range behind those selected so far. -/
def select (span : Span) : Picking Located Span := do
  modify fun s => { s with spans := s.spans ++ [span] }
  return span

/-- Locates fields; the notices made on the way are kept also where that fails. -/
def locate (b : Buffer) (types : List AbiType) : Picking Located (List Node) := do
  let (result, progress) := Layout.locate b types
  modify fun s => { s with notices := s.notices ++ progress.notices }
  match result with
  | .ok nodes => return nodes
  | .error fault => throw (.reading fault)

end Picking

/-- How a plan went: the end of every pick, and the end of the plan. -/
structure Picked where
  outcomes : List (Except QueryFault Span)
  verdict : Except QueryFault Unit

namespace Plan

variable {Part Located : Type}

/-- Picks the parts in order; a part marked `true` may fail. -/
def inOrder : List (Part × Bool) → Plan Part
  | [] => .done
  | (part, mayFail) :: rest => .pick part fun
    | .ok _ => inOrder rest
    | .error fault => if mayFail then inOrder rest else .giveUp fault

/-- Picks one part. -/
def single (part : Part) : Plan Part := inOrder [(part, false)]

def run (pick : Part → Picking Located Span) : Plan Part → StateM (PickState Located) Picked
  | .done => return { outcomes := [], verdict := .ok () }
  | .giveUp fault => return { outcomes := [], verdict := .error fault }
  | .pick part next => do
    let outcome ← (pick part).run
    let rest ← (next outcome).run pick
    return { rest with outcomes := outcome :: rest.outcomes }

end Plan

end AbiSpan
