/-!
What can go wrong, as causes. Each cause has one message and belongs to one kind; a read fault
met while a query runs keeps its kind.
-/

namespace AbiSpan

inductive FaultKind where
  | schemaMismatch
  | bounds
  | unsupported
  | ambiguous
  | lookup
deriving DecidableEq, Repr

/-- Faults of reading a buffer. -/
inductive ReadFault where
  | pastEnd (offset length bufferSize : Nat)
  | jumpPastView (offset viewSize : Nat)
  | strayPointer (pointer position bufferSize : Nat)
  | inflated (bytesRead bufferSize maxInflation : Nat)
  | wideWord (offset : Nat)
  | unsupportedType (type : String)
deriving DecidableEq, Repr

namespace ReadFault

def kind : ReadFault → FaultKind
  | .unsupportedType _ => .unsupported
  | _ => .bounds

def message : ReadFault → String
  | .pastEnd offset length bufferSize =>
    s!"data out-of-bounds: read of {length} bytes at offset {offset} exceeds buffer of " ++
      s!"{bufferSize} bytes"
  | .jumpPastView offset viewSize =>
    s!"jump out of bounds: offset {offset} outside view of {viewSize} bytes"
  | .strayPointer pointer position bufferSize =>
    s!"pointer {pointer} at offset {position} points outside buffer of {bufferSize} bytes"
  | .inflated bytesRead bufferSize maxInflation =>
    s!"ABI data exceeds inflation ratio of {maxInflation}: read {bytesRead} bytes of a " ++
      s!"{bufferSize} byte buffer"
  | .wideWord offset => s!"word at offset {offset} does not fit a pointer, length or count"
  | .unsupportedType type => s!"unsupported type in schema: {type}"

end ReadFault

/-- Faults of asking for a contract's interface. -/
inductive LookupFault where
  | notFound (address : String)
  | fetchFailed (address reason : String)
deriving DecidableEq, Repr

def LookupFault.message : LookupFault → String
  | .notFound address => s!"no ABI available for contract {address}"
  | .fetchFailed address reason => s!"ABI fetch failed for {address}: {reason}"

/-- Faults of a query over a record. -/
inductive QueryFault where
  | reading (fault : ReadFault)
  | lookup (fault : LookupFault)
  | badDescriptor (descriptor reason : String)
  | unknownTxKind (code : Nat)
  | countMismatch (expected got : Nat)
  | typeMismatch (field expected got : String)
  | missingLog (index : Nat)
  | missingNode (part : String)
  | fieldAbsent (field : String) (txCode : Nat)
  | fieldDynamic (field type : String)
  | sizeless (type : String) (offset : Nat)
  | unknownArgument (argument context : String)
  | unsupported (what reason : String)
  | noCallData
  | noDestination
  | callDataTooShort (size : Nat)
  | functionNotFound (query address : String)
  | selectorMismatch (function expected actual : String)
  | ambiguousEvent (query : String) (count : Nat)
  | ambiguousFunction (query : String) (count : Nat)
  | noSource
  | badInterface (address reason : String)
  | badSignatureHex (query : String)
  | undecodableLog (index : Nat) (address reason : String)
deriving DecidableEq, Repr

namespace QueryFault

def kind : QueryFault → FaultKind
  | .reading fault => fault.kind
  | .badDescriptor .. | .unknownTxKind _ | .countMismatch .. | .typeMismatch .. | .missingLog _
  | .missingNode _ => .schemaMismatch
  | .fieldAbsent .. | .fieldDynamic .. | .sizeless .. | .unknownArgument .. | .unsupported ..
  | .noCallData | .noDestination | .callDataTooShort _ | .functionNotFound ..
  | .selectorMismatch .. => .unsupported
  | .ambiguousEvent .. | .ambiguousFunction .. => .ambiguous
  | .lookup _ | .noSource | .badInterface .. | .badSignatureHex _ | .undecodableLog .. => .lookup

def message : QueryFault → String
  | .reading fault => s!"offset resolution failed: {fault.message}"
  | .lookup fault => s!"interface lookup failed: {fault.message}"
  | .badDescriptor descriptor reason => s!"invalid type descriptor '{descriptor}': {reason}"
  | .unknownTxKind code => s!"unsupported transaction type {code}"
  | .countMismatch expected got =>
    s!"field count mismatch: mapping declares {expected} fields, resolved tree has {got}"
  | .typeMismatch field expected got =>
    s!"type mismatch for field {field}: mapping declares {expected}, resolved {got}"
  | .missingLog index => s!"log {index} is missing from the resolved logs field"
  | .missingNode part => s!"resolved node is missing its {part}"
  | .fieldAbsent field txCode => s!"field {field} is not present in transaction type {txCode}"
  | .fieldDynamic field type =>
    s!"field {field} of type {type} is dynamic and cannot be selected as a static field"
  | .sizeless type offset => s!"field of type {type} at offset {offset} has no concrete size"
  | .unknownArgument argument context => s!"unknown argument '{argument}' in {context}"
  | .unsupported what reason => s!"{what} is not supported: {reason}"
  | .noCallData => "transaction has no call data"
  | .noDestination => "transaction has no destination contract"
  | .callDataTooShort size => s!"call data of {size} bytes is too short for a function selector"
  | .functionNotFound query address =>
    s!"no function matching '{query}' in the interface of {address}"
  | .selectorMismatch function expected actual =>
    s!"function '{function}' selector 0x{expected} does not match call data selector 0x{actual}"
  | .ambiguousEvent query count => s!"ambiguous event match for '{query}': {count} events found"
  | .ambiguousFunction query count =>
    s!"ambiguous function match for '{query}': {count} overloads found"
  | .noSource => "ABI provider is not set"
  | .badInterface address reason => s!"invalid ABI JSON for {address}: {reason}"
  | .badSignatureHex query => s!"invalid signature hex '{query}'"
  | .undecodableLog index address reason =>
    s!"log {index} emitted by {address} cannot be decoded: {reason}"

end QueryFault

end AbiSpan
