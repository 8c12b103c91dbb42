import AbiSpan.Node
import AbiSpan.View

/-!
Laying types over a buffer.

A record is a row of slots. A static value lies in its slot; the slot of a dynamic value holds a
pointer, counted from the start of the record, to where the value lies. `locate` walks the
slots and returns a tree of where everything is; it reads no more than that takes.
-/

namespace AbiSpan.Layout

open Reading

/-- A node without a range of its own. -/
def compound (type : AbiType) (offset : Nat) (outOfLine : Bool) (children : List Node) : Node :=
  { type, offset, size := none, outOfLine, value := none, children }

def refuse {α : Type} (type : AbiType) : Reading α := throw (.unsupportedType type.name)

mutual

/-- A static value at the next read. -/
def inPlace (b : Buffer) : AbiType → Reading Node
  | .fixedArray t n => do
    let offset := (← view).position
    return compound (.fixedArray t n) offset false (← times n (inPlace b t))
  | .tuple ts => do
    let offset := (← view).position
    return compound (.tuple ts) offset false (← inPlaceAll b ts)
  | type => do
    if type.isScalar then
      let offset := (← view).position
      let w ← word b
      return { type, offset, size := some wordSize, outOfLine := false, value := some w,
               children := [] }
    else refuse type

def inPlaceAll (b : Buffer) : List AbiType → Reading (List Node)
  | [] => return []
  | t :: ts => return (← inPlace b t) :: (← inPlaceAll b ts)

end

/-- A slot: the value itself, or a pointer to where `outOfLine` reads it. -/
def slot (b : Buffer) (type : AbiType) (outOfLine : Reading Node) : Reading Node := do
  if type.isDynamic then
    let v ← pointer b
    notify (.followed type v.base)
    within v outOfLine
  else inPlace b type

/-- An element of an array whose elements are dynamic. -/
def pointed (b : Buffer) (outOfLine : Reading Node) : Reading Node := do
  within (← pointer b) outOfLine

/-- A byte string or a text: its length, then its bytes. -/
def payload (b : Buffer) (type : AbiType) : Reading Node := do
  let size ← index b
  let offset := (← view).position
  let value ← bytes b size true
  return { type, offset, size := some size, outOfLine := true, value := some value, children := [] }

/-- The number of elements of an array; each takes a byte or more. -/
def count (b : Buffer) : Reading Nat := do
  let start := (← view).position
  let n ← index b
  if n ≤ (← view).remaining b then return n else throw (.pastEnd start n b.size)

mutual

/-- A dynamic value at the start of the view. -/
def outOfLine (b : Buffer) : AbiType → Reading Node
  | .bytes => payload b .bytes
  | .string => payload b .string
  | .array t => do
    let start := (← view).base
    let n ← count b
    let children ←
      if t.isDynamic then do
        let heads ← MonadExcept.ofExcept ((← view).openAhead b 0)
        within heads (times n (pointed b (outOfLine b t)))
      else times n (inPlace b t)
    notify (.arrayLocated (.array t) start n)
    return compound (.array t) start true children
  | .fixedArray t n => do
    let start := (← view).base
    return compound (.fixedArray t n) start true (← times n (slot b t (outOfLine b t)))
  | .tuple ts => do
    let start := (← view).base
    return compound (.tuple ts) start true (← record b ts)
  | type => refuse type

/-- A row of slots. -/
def record (b : Buffer) : List AbiType → Reading (List Node)
  | [] => return []
  | t :: ts => return (← slot b t (outOfLine b t)) :: (← record b ts)

end

/-- Where the fields of a buffer lie. -/
def fields (b : Buffer) (types : List AbiType) : Reading (List Node) := do
  let nodes ← record b types
  notify (.fieldsLocated nodes.length b.size (← get).bytesRead)
  return nodes

/-- Locates the fields, from the start of the buffer. -/
def locate (b : Buffer) (types : List AbiType) : Except ReadFault (List Node) × Progress :=
  (fields b types).run.run {}

end AbiSpan.Layout
