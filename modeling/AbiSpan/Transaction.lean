import AbiSpan.Address
import AbiSpan.TxKind

/-!
What is known of a transaction and its receipt besides the encoded record.
-/

namespace AbiSpan

structure Transaction where
  kind : TxKind
  /-- The called contract; absent when the transaction creates one. -/
  destination : Option Address
  /-- The call data, selector first. -/
  input : Bytes
deriving DecidableEq

namespace Transaction

/-- The first four bytes of the call data. -/
def selector? (t : Transaction) : Option Selector := Fixed.front? selectorSize t.input

end Transaction

structure Log where
  address : Address
  topics : List Topic
  data : Bytes
deriving DecidableEq

/-- The logs of a transaction, in the order they were emitted. -/
structure Receipt where
  logs : List Log
deriving DecidableEq

end AbiSpan
