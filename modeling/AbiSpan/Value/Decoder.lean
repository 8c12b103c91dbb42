import AbiSpan.AbiType
import AbiSpan.Value
import AbiSpan.Value.Utf8

/-!
Decoding the values of a row of types.

A window is a tail of the data; positions count from its start. Values out of line open a
window at an offset of the present one, and so do the members of compound values. Windows may
be nested only so deep. Of a word that holds an offset, a length or a count, only the low eight
bytes matter, and payloads need no padding.
-/

namespace AbiSpan

inductive DecodeFault where
  | overrun
  | tooDeep
  | tooMany
deriving DecidableEq, Repr

namespace DecodeFault

def maxNesting : Nat := 16

def message : DecodeFault → String
  | .overrun => "ABI decoding failed: buffer overrun while deserializing"
  | .tooDeep =>
    "ABI decoding failed: recursion limit of " ++ toString maxNesting ++
      " exceeded during decoding"
  | .tooMany =>
    "memory allocation failed because the computed capacity exceeded the collection's maximum"

end DecodeFault

namespace Value.Decoder

/-- A value is held in so many bytes while its row is read: a word, and eight that tell its kind. -/
def heldSize : Nat := wordSize + 8

/-- So many values of a row can be held. Their room is reserved at once, and what is reserved at
once stays below half of the bytes that an offset can address. -/
def canHold (n : Nat) : Bool := 2 * (heldSize * n) < offsetBound

end Value.Decoder

namespace AbiType

mutual

/-- Values of the type take no room at all. -/
def isEmpty : AbiType → Bool
  | .array t => t.isEmpty
  | .fixedArray t _ => t.isEmpty
  | .tuple ts => allEmpty ts
  | _ => false

def allEmpty : List AbiType → Bool
  | [] => true
  | t :: ts => t.isEmpty && allEmpty ts

end

mutual

/-- The least number of words a value of the type takes, modulo the bound of all counts. -/
def leastWords : AbiType → Nat
  | .fixedArray t n => n * t.leastWords % offsetBound
  | .tuple ts => leastWordsAll ts
  | _ => 1

def leastWordsAll : List AbiType → Nat
  | [] => 0
  | t :: ts => (t.leastWords + leastWordsAll ts) % offsetBound

end

mutual

/-- There is room for the members of every fixed array in the type. -/
def hasRoom : AbiType → Bool
  | .array t => t.hasRoom
  | .fixedArray t n => Value.Decoder.canHold n && t.hasRoom
  | .tuple ts => allHaveRoom ts
  | _ => true

def allHaveRoom : List AbiType → Bool
  | [] => true
  | t :: ts => t.hasRoom && allHaveRoom ts

end

/-- One word; unlike a scalar it may also be a function. -/
def isWord (t : AbiType) : Bool :=
  match t with
  | .function => true
  | t => t.isScalar

end AbiType

namespace Value

/-- What a word means as a value of a type of one word. -/
def ofWord (t : AbiType) (w : Bytes) : Value :=
  match t with
  | .bool => .bool (w.toNat ≠ 0)
  | .int bits =>
    .int bits (if 2 * w.toNat < wordBound then w.toNat else (w.toNat : Int) - wordBound)
  | .uint bits => .uint bits w.toNat
  | .address => .address (w.drop 12)
  | .function => .function (w.take 24)
  | .fixedBytes n => .fixedBytes n w
  | _ => .fixedBytes wordSize w

namespace Decoder

/-- A tail of the data, the position in it, and how many windows enclose it. -/
structure Window where
  bytes : Bytes
  position : Nat := 0
  depth : Nat := 0

namespace Window

def word (w : Window) : Except DecodeFault (Bytes × Window) :=
  match w.bytes.slice? w.position wordSize with
  | some b => .ok (b, { w with position := w.position + wordSize })
  | none => .error .overrun

/-- An offset, a length or a count. -/
def index (w : Window) : Except DecodeFault (Nat × Window) := do
  let (b, w) ← w.word
  return (Bytes.toNat (b.drop 24), w)

/-- A window at an offset of this one. -/
def enter (w : Window) (offset : Nat) : Except DecodeFault Window :=
  if DecodeFault.maxNesting ≤ w.depth then .error .tooDeep
  else if offset ≤ w.bytes.length then .ok { bytes := w.bytes.drop offset, depth := w.depth + 1 }
  else .error .overrun

/-- A window at the present position. -/
def here (w : Window) : Except DecodeFault Window := w.enter w.position

/-- A window at the offset that the next word holds. -/
def follow (w : Window) : Except DecodeFault (Window × Window) := do
  let (offset, w) ← w.index
  return (← w.enter offset, w)

/-- Words from the position to the end. -/
def wordsLeft (w : Window) : Nat := (w.bytes.length - w.position) / wordSize

end Window

/-- One value after another, `n` times. -/
def times (one : Window → Except DecodeFault (Value × Window)) :
    Nat → Window → Except DecodeFault (List Value × Window)
  | 0, w => .ok ([], w)
  | n + 1, w => do
    let (v, w) ← one w
    let (vs, w) ← times one n w
    return (v :: vs, w)

/-- The bytes of a byte string or a text. -/
def payload (w : Window) : Except DecodeFault (Bytes × Window) := do
  let (inner, w) ← w.follow
  let (size, inner) ← inner.index
  match inner.bytes.slice? inner.position size with
  | some b => return (b, w)
  | none => throw .overrun

/-- Members in a window of their own: behind an offset, or at the position and then passed. -/
def grouped (dynamic : Bool) (w : Window)
    (members : Window → Except DecodeFault (List Value × Window)) :
    Except DecodeFault (List Value × Window) := do
  if dynamic then
    let (inner, w) ← w.follow
    let (vs, _) ← members inner
    return (vs, w)
  else
    let inner ← w.here
    let (vs, inner) ← members inner
    return (vs, { w with position := w.position + inner.position })

mutual

def value : AbiType → Window → Except DecodeFault (Value × Window)
  | .bytes, w => do
    let (b, w) ← payload w
    return (.bytes b, w)
  | .string, w => do
    let (b, w) ← payload w
    return (.string (Utf8.decodeLossy b), w)
  | .array t, w => do
    let (inner, w) ← w.follow
    let (n, inner) ← inner.index
    if n = 0 then return (.array [], w)
    let items ← inner.here
    if items.wordsLeft < n * t.leastWords % offsetBound then throw .overrun
    if ¬ canHold n then throw .tooMany
    let (vs, _) ← times (value t) n items
    return (.array vs, w)
  | .fixedArray t n, w => do
    let (vs, w) ← grouped t.isDynamic w (times (value t) n)
    return (.fixedArray vs, w)
  | .tuple ts, w => do
    let (vs, w) ← grouped (AbiType.anyDynamic ts) w (row ts)
    return (.tuple vs, w)
  | t, w => do
    let (b, w) ← w.word
    return (Value.ofWord t b, w)

/-- Values of a row of types, in one window. -/
def row : List AbiType → Window → Except DecodeFault (List Value × Window)
  | [], w => .ok ([], w)
  | t :: ts, w => do
    let (v, w) ← value t w
    let (vs, w) ← row ts w
    return (v :: vs, w)

end

end Decoder

/-- The values of a row of types in the data. Types that take no room have none. Fixed arrays need
room even where the data holds none of them. -/
def decodeRow (types : List AbiType) (data : Bytes) : Except DecodeFault (List Value) := do
  if AbiType.allEmpty types then return []
  if data.length / wordSize < AbiType.leastWordsAll types then throw .overrun
  if ¬ AbiType.allHaveRoom types then throw .tooMany
  let (vs, _) ← Decoder.row types { bytes := data }
  return vs

end Value

end AbiSpan
