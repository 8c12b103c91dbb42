import AbiSpan.AbiType.Text
import AbiSpan.Fault

/-!
Types by the texts that describe them, as queries meet them.
-/

namespace AbiSpan.AbiType

/-- The type of a descriptor. -/
def ofDescriptor (s : String) : Except QueryFault AbiType :=
  match ofString s with
  | .ok t => .ok t
  | .error fault => .error (.badDescriptor s fault.message)

/-- The types of a list of descriptors, the first bad one being the fault. -/
def ofDescriptors (ss : List String) : Except QueryFault (List AbiType) := ss.mapM ofDescriptor

end AbiSpan.AbiType
