import AbiSpan.Fault
import AbiSpan.Hex
import AbiSpan.Text.Blank

/-!
How a query names an event or a function: by its hash, by its signature or by its name.

Text that begins with `0x` is a hash and nothing else. Of other text, a signature is what holds
an opening bracket; its blanks do not count.
-/

namespace AbiSpan

inductive ItemKey where
  | hash (b : Bytes)
  | signature (s : String)
  | name (s : String)
deriving DecidableEq, Repr

namespace ItemKey

/-- Reads trimmed text as a key. A hash must have exactly `width` bytes. -/
def ofTrimmed (width : Nat) (cs : List Char) : Except QueryFault ItemKey :=
  match cs with
  | '0' :: 'x' :: digits =>
    match Hex.decode? digits with
    | some b => if b.length = width then .ok (.hash b) else .error (.badSignatureHex (.ofList cs))
    | none => .error (.badSignatureHex (.ofList cs))
  | cs =>
    if '(' ∈ cs then .ok (.signature (.ofList (Text.squeeze cs)))
    else .ok (.name (.ofList cs))

def ofString (width : Nat) (query : String) : Except QueryFault ItemKey :=
  ofTrimmed width (Text.trim query.toList)

/-- The key of a query for events. -/
def ofEventQuery (query : String) : Except QueryFault ItemKey := ofString wordSize query

/-- The key of a query for functions. -/
def ofFunctionQuery (query : String) : Except QueryFault ItemKey := ofString selectorSize query

/-- The key written so that it reads back. -/
def text : ItemKey → String
  | .hash b => Hex.marked b
  | .signature s => s
  | .name s => s

def isHash : ItemKey → Bool
  | .hash _ => true
  | _ => false

/-- The key names an item of this hash, signature and name. -/
def names (k : ItemKey) (hash : Bytes) (signature name : String) : Bool :=
  match k with
  | .hash b => b == hash
  | .signature s => s == signature
  | .name s => s == name

end ItemKey

end AbiSpan
