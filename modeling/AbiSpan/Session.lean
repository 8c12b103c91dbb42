import AbiSpan.CallScope
import AbiSpan.LogMatch
import AbiSpan.LogScope
import AbiSpan.Record
import AbiSpan.Source

/-!
A session of queries over one record.

A session gathers ranges in the order they are asked for. It remembers the interface of every
contract it has looked up and where the arguments of calls lie, and it keeps a journal of what
it did, which failing queries write too.
-/

namespace AbiSpan

/-- A log of the receipt, by its number, as an occurrence of an event. -/
structure Occurrence where
  index : Nat
  event : Event
  values : LogValues
deriving BEq

/-- What a session did. -/
inductive Deed where
  | noted (n : Notice)
  /-- Asked a source for the interface of a contract. -/
  | asked (a : Address)
  /-- Put a decoded log before the caller's choice. -/
  | judged (index : Nat) (values : LogValues)
  /-- Ran a plan over a log. -/
  | pickedLog (o : Occurrence) (outcomes : List (Except QueryFault Span))
  /-- Ran a plan over the call data. -/
  | pickedCall (f : Function) (outcomes : List (Except QueryFault Span))

namespace Deed

def notice? : Deed → Option Notice
  | .noted n => some n
  | _ => none

def asked? : Deed → Option Address
  | .asked a => some a
  | _ => none

end Deed

abbrev Journal := Array Deed

namespace Journal

def notices (j : Journal) : List Notice := j.toList.filterMap Deed.notice?

/-- The addresses that sources were asked about, repeats included. -/
def asked (j : Journal) : List Address := j.toList.filterMap Deed.asked?

end Journal

structure Session where
  record : Record
  source : Option Source := none
  /-- The interfaces looked up so far, the latest first. -/
  interfaces : List (Address × Interface) := []
  callTrees : CallScope.Located := []
  /-- The ranges gathered so far. -/
  spans : List Span := []
  journal : Journal := #[]

/-- A fault keeps what the session learnt before it. -/
abbrev Query := ExceptT QueryFault (StateM Session)

namespace Session

/-- Opens a session over an encoded record. -/
def ofEncoded (tx : Transaction) (receipt : Receipt) (encoded : Bytes) (settings : Settings)
    (library : Library := .standard) : Except QueryFault Session :=
  (Record.ofEncoded tx receipt encoded settings library).map fun (record, notices) =>
    { record, journal := (notices.map Deed.noted).toArray }

/-- A session that has just been opened knows its record and nothing else. -/
theorem ofEncoded_inv {tx : Transaction} {receipt : Receipt} {encoded : Bytes}
    {settings : Settings} {library : Library} {s : Session}
    (h : ofEncoded tx receipt encoded settings library = .ok s) :
    ∃ notices, Record.ofEncoded tx receipt encoded settings library = .ok (s.record, notices) ∧
      s = { record := s.record, journal := (notices.map Deed.noted).toArray } := by
  unfold ofEncoded at h
  cases hr : Record.ofEncoded tx receipt encoded settings library with
  | error fault => simp [hr, Except.map] at h
  | ok opened =>
    simp only [hr, Except.map, Except.ok.injEq] at h
    subst h
    exact ⟨opened.2, rfl, rfl⟩

/-- Its record is made of what it was opened with. -/
theorem record_of_ofEncoded {tx : Transaction} {receipt : Receipt} {encoded : Bytes}
    {settings : Settings} {library : Library} {s : Session}
    (h : ofEncoded tx receipt encoded settings library = .ok s) :
    s.record.tx = tx ∧ s.record.receipt = receipt ∧ s.record.encoded = encoded ∧
      s.record.settings = settings ∧ s.record.library = library := by
  obtain ⟨notices, hr, -⟩ := ofEncoded_inv h
  obtain ⟨tree, index, progress, -, -, hrecord, -⟩ := Record.ofEncoded_inv hr
  rw [hrecord]
  exact ⟨rfl, rfl, rfl, rfl, rfl⟩

/-- Hands out the ranges, in the order in which they were gathered. -/
def build (s : Session) : List Span := s.spans

end Session

namespace Query

def record : Query Record := return (← get).record

def write (d : Deed) : Query Unit := modify fun s => { s with journal := s.journal.push d }

def notify (n : Notice) : Query Unit := write (.noted n)

/-- Adds ranges behind those gathered so far. -/
def gather (spans : List Span) : Query Unit := modify fun s => { s with spans := s.spans ++ spans }

def setSource (source : Source) : Query Unit := modify fun s => { s with source := some source }

/-- The range of a field of a fixed place. -/
def staticSpan (r : Record) (f : Field) : Except QueryFault Span :=
  match r.field? f with
  | none => .error (.fieldAbsent f.name r.tx.kind.code)
  | some n =>
    if n.outOfLine && n.size.isNone then .error (.fieldDynamic f.name n.type.name) else n.span

def staticField (f : Field) : Query Unit := do
  gather [← MonadExcept.ofExcept (staticSpan (← record) f)]

/-- The field that holds the call data. -/
def callNode (r : Record) : Except QueryFault Node :=
  match r.field? .data with
  | some n => .ok n
  | none => .error (.missingNode "call data field")

/-- The range of the selector at the front of the call data. -/
def selectorSpan (r : Record) : Except QueryFault Span := do
  let node ← callNode r
  if node.size.getD 0 = 0 then throw .noCallData
  CallScope.selectorSpan node

def functionSignature : Query Unit := do
  gather [← MonadExcept.ofExcept (selectorSpan (← record))]

/-- Asks the source for an interface, and remembers it. -/
def fetch (source : Source) (a : Address) : Query Interface := do
  let library := (← record).library
  let earlier := (← get).journal.asked
  write (.asked a)
  match source.answer earlier a with
  | .error fault => throw (.lookup fault)
  | .ok text =>
    match library.interface? text with
    | none => throw (.badInterface a.checksummed "not the interface of a contract")
    | some i =>
      notify (.interfaceFetched a i.events.length i.functions.length)
      modify fun s => { s with interfaces := (a, i) :: s.interfaces }
      return i

/-- The interface of a contract. Without a source not even a remembered one is given. -/
def interfaceOf (a : Address) : Query Interface := do
  match (← get).source with
  | none => throw .noSource
  | some source =>
    let i ← match (← get).interfaces.lookup a with
      | some i => do
        notify (.interfaceCached a)
        pure i
      | none => fetch source a
    notify (.interfaceReady a (← get).interfaces.length)
    return i

end Query

end AbiSpan
