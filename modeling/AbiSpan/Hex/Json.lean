import AbiSpan.Hex
import AbiSpan.Json

/-!
Bytes in JSON: written as marked hexadecimal text, read from text with or without the mark or
from an array of small numbers. A byte string of a known length is complete when it has that many
bytes, and whatever else stands in the array must not be one more.
-/

namespace AbiSpan

def Bytes.toJson (b : Bytes) : Json := .string (Hex.marked b)

def Bytes.ofJson? : Json → Option Bytes
  | .string s => Hex.ofText? s
  | .array items => items.mapM fun j => (j.natBelow? 256).map UInt8.ofNat
  | _ => none

namespace Fixed

variable {n : Nat}

def toJson (f : Fixed n) : Json := Bytes.toJson f.bytes

/-- No further byte stands in the rest of an array; a single item that is none may stand there. -/
def endsIn : List Json → Bool
  | [] => true
  | [j] => (j.natBelow? 256).isNone
  | _ => false

def ofJson? (n : Nat) : Json → Option (Fixed n)
  | .array items =>
    if endsIn (items.drop n) then (Bytes.ofJson? (.array (items.take n))).bind (ofBytes? n)
    else none
  | j => (Bytes.ofJson? j).bind (ofBytes? n)

end Fixed

end AbiSpan
