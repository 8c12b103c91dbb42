import AbiSpan.AbiType
import AbiSpan.Address
import AbiSpan.Span
import AbiSpan.TxKind

/-!
What the library reports about its work, as values: each notice has a level, a fixed message
and named details.
-/

namespace AbiSpan

inductive Level where
  | trace
  | debug
  | warn
deriving DecidableEq, Repr

inductive Detail where
  | number (n : Nat)
  | text (s : String)
deriving DecidableEq, Repr

inductive Notice where
  /-- A pointer in a slot leads to a value out of line. -/
  | followed (type : AbiType) (tail : Nat)
  /-- The elements of an array of any length are located. -/
  | arrayLocated (type : AbiType) (offset count : Nat)
  /-- Every field of a buffer is located. -/
  | fieldsLocated (fields bufferSize bytesRead : Nat)
  | logCountsDiffer (encoded receipt : Nat)
  | sessionOpened (kind : TxKind) (fields bytes : Nat)
  | interfaceCached (address : Address)
  | interfaceFetched (address : Address) (events functions : Nat)
  | interfaceReady (address : Address) (cached : Nat)
  | noLogMatched (query : String)
  | logsMatched (query : String) (count : Nat)
  | eventArgument (argument : String) (span : Span)
  | callLocated (signature : String) (arguments : Nat)
  | callArgument (argument : String) (span : Span)
  | callResolved (signature : String) (spans : Nat)
deriving BEq, Inhabited

namespace Notice

def level : Notice → Level
  | .followed .. | .arrayLocated .. | .interfaceCached _ | .eventArgument .. | .callArgument .. =>
    .trace
  | .logCountsDiffer .. => .warn
  | _ => .debug

def message : Notice → String
  | .followed .. => "following head pointer"
  | .arrayLocated .. => "resolved array"
  | .fieldsLocated .. => "resolved ABI field offsets"
  | .logCountsDiffer .. => "receipt logs do not match the encoded logs field"
  | .sessionOpened .. => "query builder ready"
  | .interfaceCached _ => "ABI cache hit"
  | .interfaceFetched .. => "fetched contract ABI"
  | .interfaceReady .. => "contract ABI available"
  | .noLogMatched _ => "no log matched event query"
  | .logsMatched .. => "resolving all matching events"
  | .eventArgument .. => "selected event argument"
  | .callLocated .. => "resolved call data offsets"
  | .callArgument .. => "selected function argument"
  | .callResolved .. => "resolved function query"

def details : Notice → List (String × Detail)
  | .followed type tail => [("ty", .text type.name), ("tail", .number tail)]
  | .arrayLocated type offset count =>
    [("ty", .text type.name), ("offset", .number offset), ("count", .number count)]
  | .fieldsLocated fields bufferSize bytesRead =>
    [("fields", .number fields), ("buffer_len", .number bufferSize),
     ("bytes_read", .number bytesRead)]
  | .logCountsDiffer encoded receipt =>
    [("encoded_logs", .number encoded), ("receipt_logs", .number receipt)]
  | .sessionOpened kind fields bytes =>
    [("tx_type", .text (toString kind.code)), ("fields", .number fields),
     ("bytes", .number bytes)]
  | .interfaceCached address => [("address", .text (Address.checksummed address))]
  | .interfaceFetched address events functions =>
    [("address", .text (Address.checksummed address)), ("events", .number events),
     ("functions", .number functions)]
  | .interfaceReady address cached =>
    [("address", .text (Address.checksummed address)), ("cached", .number cached)]
  | .noLogMatched query => [("query", .text query)]
  | .logsMatched query count => [("query", .text query), ("matches", .number count)]
  | .eventArgument argument span | .callArgument argument span =>
    [("argument", .text argument), ("selection", .text span.text)]
  | .callLocated signature arguments =>
    [("function", .text signature), ("arguments", .number arguments)]
  | .callResolved signature spans =>
    [("function", .text signature), ("selections", .number spans)]

end Notice

end AbiSpan
