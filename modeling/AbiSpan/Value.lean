import AbiSpan.Address

/-!
Decoded values.

Words are taken as they come: a number keeps the whole word whatever its width, and bytes of a
fixed size keep the word they stand in.
-/

namespace AbiSpan

inductive Value where
  | bool (b : Bool)
  | int (bits : Nat) (n : Int)
  | uint (bits : Nat) (n : Nat)
  | fixedBytes (size : Nat) (word : Bytes)
  | address (a : Bytes)
  | function (b : Bytes)
  | bytes (b : Bytes)
  | string (s : String)
  | array (vs : List Value)
  | fixedArray (vs : List Value)
  | tuple (vs : List Value)
deriving BEq, Inhabited

end AbiSpan
