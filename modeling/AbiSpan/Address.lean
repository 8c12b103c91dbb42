import AbiSpan.Hex
import AbiSpan.Keccak

/-!
Contract addresses, their mixed-case text, and the other short byte strings of a chain.
-/

namespace AbiSpan

abbrev Address := Fixed 20

/-- An indexed word of a log. -/
abbrev Topic := Fixed 32

/-- The first bytes of a call. -/
abbrev Selector := Fixed selectorSize

namespace Address

def plain (a : Address) : String := Hex.marked a.bytes

/-- A letter is upper case where the hash of the lower-case digits has a digit of 8 or more. -/
def checksummed (a : Address) : String :=
  let digits := Hex.encode a.bytes
  let marks := Hex.encode (Keccak.hash (digits.map fun c => UInt8.ofNat c.toNat)).bytes
  "0x" ++ String.ofList ((digits.zip marks).map fun (c, m) =>
    if '8' ≤ m then c.toUpper else c)

end Address

end AbiSpan
