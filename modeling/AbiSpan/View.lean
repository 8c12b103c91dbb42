import AbiSpan.Fault
import AbiSpan.Limits
import AbiSpan.Notice

/-!
Reading a buffer through views.

A view starts somewhere in the buffer, runs to its end, and remembers how far it has been read.
Reads take whole words: a read of `n` bytes hands out `n` and moves on by `n` rounded up, and
only where the limits allow it may the very last padding be missing. Every read of every view
is counted, before the view moves, and the count is held against the limits.
-/

namespace AbiSpan

/-- Bytes, and the limits they are read under. -/
structure Buffer where
  bytes : Bytes
  limits : Limits := {}

namespace Buffer

def size (b : Buffer) : Nat := b.bytes.length

end Buffer

structure View where
  /-- Where the view starts in the buffer. Pointers count from here. -/
  base : Nat := 0
  /-- How many bytes of the view are behind it. -/
  consumed : Nat := 0
deriving DecidableEq, Repr, Inhabited

namespace View

/-- Where the next read starts in the buffer. -/
def position (v : View) : Nat := v.base + v.consumed

/-- From the start of the view to the end of the buffer. -/
def length (v : View) (b : Buffer) : Nat := b.size - v.base

def remaining (v : View) (b : Buffer) : Nat := b.size - v.position

/-- The next read starts inside the buffer or at its end. -/
def Valid (v : View) (b : Buffer) : Prop := v.position ≤ b.size

/-- Where a read of `size` bytes ends: at a word, or at once if `unpadded` reads may be and the
buffer has no more. -/
def readEnd (v : View) (b : Buffer) (size : Nat) (unpadded : Bool) : Except ReadFault Nat :=
  if offsetBound ≤ padded size then .error (.pastEnd v.position size b.size)
  else if v.position + padded size ≤ b.size then .ok (v.position + padded size)
  else if b.limits.allowLoose && unpadded && v.position + size ≤ b.size then
    .ok (v.position + size)
  else .error (.pastEnd v.position (padded size) b.size)

/-- A view that starts at an offset of the buffer. -/
def openAt (b : Buffer) (offset : Nat) : Except ReadFault View :=
  if offset ≤ b.size then .ok { base := offset } else .error (.jumpPastView offset b.size)

/-- A view that starts some bytes past the next read. -/
def openAhead (v : View) (b : Buffer) (ahead : Nat) : Except ReadFault View :=
  if v.position + ahead < offsetBound then openAt b (v.position + ahead)
  else .error (.jumpPastView ahead (v.length b))

/-- The same view, read up to an offset of its own. -/
def jump (v : View) (b : Buffer) (offset : Nat) : Except ReadFault View :=
  if offset ≤ v.length b then .ok { v with consumed := offset }
  else .error (.jumpPastView offset (v.length b))

theorem readEnd_bounds {v : View} {b : Buffer} {size stop : Nat} {unpadded : Bool}
    (h : v.readEnd b size unpadded = .ok stop) : v.position + size ≤ stop ∧ stop ≤ b.size := by
  have hp := le_padded size
  unfold readEnd at h
  split at h
  · cases h
  · split at h
    · cases h; omega
    · split at h
      · rename_i hl
        simp only [Bool.and_eq_true, decide_eq_true_eq] at hl
        cases h; omega
      · cases h

theorem openAt_eq_ok_iff {b : Buffer} {offset : Nat} {v : View} :
    openAt b offset = .ok v ↔ offset ≤ b.size ∧ v = { base := offset } := by
  unfold openAt
  split <;> simp [*, eq_comm]

end View

/-- What reading changes: the view that is read, the bytes read by all views, and the notices. -/
structure Progress where
  view : View := {}
  bytesRead : Nat := 0
  notices : Array Notice := #[]

/-- A fault keeps the progress made before it. -/
abbrev Reading := ExceptT ReadFault (StateM Progress)

namespace Reading

def view : Reading View := return (← get).view

def setView (v : View) : Reading Unit := modify fun p => { p with view := v }

def notify (n : Notice) : Reading Unit := modify fun p => { p with notices := p.notices.push n }

/-- Counts bytes read; a count over the limit stays counted. -/
def charge (b : Buffer) (size : Nat) : Reading Unit := do
  let total := addCapped (← get).bytesRead size
  modify fun p => { p with bytesRead := total }
  if b.limits.Exceeded b.size total then
    throw (.inflated total b.size b.limits.maxInflation)

/-- The next `size` bytes. -/
def bytes (b : Buffer) (size : Nat) (unpadded : Bool) : Reading Bytes := do
  let v ← view
  let stop ← MonadExcept.ofExcept (v.readEnd b size unpadded)
  charge b size
  setView { v with consumed := v.consumed + (stop - v.position) }
  return (b.bytes.drop v.position).take size

def word (b : Buffer) : Reading Bytes := bytes b wordSize false

/-- A word that holds a pointer, a length or a count. -/
def index (b : Buffer) : Reading Nat := do
  let start := (← view).position
  let n := (← word b).toNat
  if n < offsetBound then return n else throw (.wideWord start)

/-- Reads a pointer and opens a view at what it points to. -/
def pointer (b : Buffer) : Reading View := do
  let v ← view
  let target ← index b
  if v.base + target ≤ b.size then return { base := v.base + target }
  else throw (.strayPointer target v.position b.size)

/-- Reads through another view, then goes on with this one. -/
def within {α : Type} (v : View) (x : Reading α) : Reading α := do
  let outer ← view
  setView v
  let r ← x
  setView outer
  return r

/-- The same reading `n` times over. -/
def times {α : Type} : Nat → Reading α → Reading (List α)
  | 0, _ => return []
  | n + 1, x => return (← x) :: (← times n x)

end Reading

end AbiSpan
