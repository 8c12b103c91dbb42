import AbiSpan.View

/-!
Several views of one buffer, read in any order.

Every view comes from the one that the desk starts with. Actions name a view by its number; an
action that opens a view adds it at the end. All views share one count of bytes read.
-/

namespace AbiSpan

inductive Action where
  | readBytes (size : Nat)
  | readBytesLoose (size : Nat)
  | readWord
  | readIndex
  | jump (offset : Nat)
  | openAhead (ahead : Nat)
  | openAt (offset : Nat)
  | followPointer
  | duplicate
deriving DecidableEq, Repr

inductive Reply where
  | bytes (b : Bytes)
  | number (n : Nat)
  | moved
  | opened (v : View)
deriving DecidableEq, Repr

/-- What an action does to the view it names. -/
def Action.perform (b : Buffer) : Action → Reading Reply
  | .readBytes size => return .bytes (← Reading.bytes b size false)
  | .readBytesLoose size => return .bytes (← Reading.bytes b size true)
  | .readWord => return .bytes (← Reading.word b)
  | .readIndex => return .number (← Reading.index b)
  | .jump offset => do
    Reading.setView (← MonadExcept.ofExcept ((← Reading.view).jump b offset))
    return .moved
  | .openAhead ahead => do
    return .opened (← MonadExcept.ofExcept ((← Reading.view).openAhead b ahead))
  | .openAt offset => return .opened (← MonadExcept.ofExcept (View.openAt b offset))
  | .followPointer => return .opened (← Reading.pointer b)
  | .duplicate => return .opened (← Reading.view)

structure Desk where
  views : List View
  bytesRead : Nat
deriving DecidableEq, Repr

namespace Desk

/-- One view, at the start of the buffer. -/
def start : Desk := { views := [{}], bytesRead := 0 }

/-- Performs an action on a view; a number that no view has changes nothing. -/
def step (b : Buffer) (d : Desk) (number : Nat) (a : Action) :
    Option (Except ReadFault Reply × Desk) :=
  d.views[number]?.map fun v =>
    let (reply, p) := (a.perform b).run.run { view := v, bytesRead := d.bytesRead }
    let views := d.views.set number p.view
    let views := match reply with
      | .ok (.opened w) => views ++ [w]
      | _ => views
    (reply, { views, bytesRead := p.bytesRead })

end Desk

end AbiSpan
