import AbiSpan.ItemKey
import AbiSpan.Library

/-!
Finding the event that a log is of.

The first event of an interface whose hash stands in topic zero is the one that the log is of.
Only where no event has that hash can the log be of an anonymous one.
-/

namespace AbiSpan

/-- The key names the event. Logs of an anonymous event show no hash that a key could have. -/
def Event.named (e : Event) (key : ItemKey) : Bool :=
  key.names (if e.anonymous then [] else e.selector.bytes) e.signature e.name

namespace Interface

/-- The event that is declared with a hash. -/
def declared? (i : Interface) (hash : Topic) : Option Event :=
  i.events.find? fun e => !e.anonymous && e.selector == hash

/-- The first anonymous event that a key names and that the log can be read as. -/
def anonymous? (i : Interface) (l : Library) (key : ItemKey) (log : Log) :
    Option (Event × LogValues) :=
  (i.events.filter fun e => e.anonymous && e.named key).findSome? fun e =>
    (l.decode e log).toOption.map (e, ·)

/-- The event named by a key that a log is of, with the log's values. The log's topic zero is
`hash`. -/
def occurrence? (i : Interface) (l : Library) (key : ItemKey) (log : Log) (hash : Topic) :
    Except LogFault (Option (Event × LogValues)) :=
  match i.declared? hash with
  | some e =>
    if e.named key then (l.decode e log).map fun values => some (e, values) else .ok none
  | none =>
    if key.isHash then .error (.undeclared hash) else .ok (i.anonymous? l key log)

end Interface

end AbiSpan
