import AbiSpan.Bytes

/-!
The types a record is made of.

A type is dynamic when its values are stored out of line, behind a pointer. Names are
canonical: members joined by commas, and a comma after the member of a tuple of one.
-/

namespace AbiSpan

inductive AbiType where
  | bool
  | int (bits : Nat)
  | uint (bits : Nat)
  | fixedBytes (size : Nat)
  | address
  | function
  | bytes
  | string
  | array (elem : AbiType)
  | fixedArray (elem : AbiType) (count : Nat)
  | tuple (members : List AbiType)
deriving BEq, Inhabited

namespace AbiType

mutual

def isDynamic : AbiType → Bool
  | .bytes | .string | .array _ => true
  | .fixedArray t _ => t.isDynamic
  | .tuple ts => anyDynamic ts
  | _ => false

def anyDynamic : List AbiType → Bool
  | [] => false
  | t :: ts => t.isDynamic || anyDynamic ts

end

/-- One word, in place. -/
def isScalar : AbiType → Bool
  | .bool | .int _ | .uint _ | .fixedBytes _ | .address => true
  | _ => false

mutual

def name : AbiType → String
  | .bool => "bool"
  | .int n => "int" ++ toString n
  | .uint n => "uint" ++ toString n
  | .fixedBytes n => "bytes" ++ toString n
  | .address => "address"
  | .function => "function"
  | .bytes => "bytes"
  | .string => "string"
  | .array t => t.name ++ "[]"
  | .fixedArray t n => t.name ++ "[" ++ toString n ++ "]"
  | .tuple [t] => "(" ++ t.name ++ ",)"
  | .tuple ts => "(" ++ ",".intercalate (names ts) ++ ")"

def names : List AbiType → List String
  | [] => []
  | t :: ts => t.name :: names ts

end

theorem anyDynamic_eq_any (ts : List AbiType) : anyDynamic ts = ts.any isDynamic := by
  induction ts with
  | nil => rfl
  | cons t ts ih => simp [anyDynamic, ih]

theorem isScalar_not_isDynamic {t : AbiType} (h : t.isScalar = true) : t.isDynamic = false := by
  cases t <;> first | rfl | cases h

end AbiType

end AbiSpan
