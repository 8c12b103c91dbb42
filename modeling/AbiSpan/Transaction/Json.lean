import AbiSpan.Field
import AbiSpan.Hex.Json
import AbiSpan.Json.Reader
import AbiSpan.Schema
import AbiSpan.Transaction

/-!
Transactions, receipts and their parts in JSON.
-/

namespace AbiSpan

namespace TxKind

/-- A kind is written as its code. -/
def toJson (k : TxKind) : Json := .natural k.code

def ofJson? (j : Json) : Option TxKind := (j.natBelow? 256).bind ofCode?

end TxKind

namespace Field

def toJson (f : Field) : Json := .string f.name

def ofJson? (j : Json) : Option Field := j.name?.bind ofName?

end Field

namespace Edition

def toJson (e : Edition) : Json := .string e.name

def ofJson? (j : Json) : Option Edition := j.name?.bind ofName?

end Edition

namespace Transaction

/-- The destination is written only when there is one. -/
def toJson (t : Transaction) : Json :=
  .object ([("type", t.kind.toJson)] ++ (t.destination.map fun a => ("to", a.toJson)).toList ++
    [("input", Bytes.toJson t.input)])

/-- A destination may be null or left out, and so may the call data be left out. -/
def ofJson? (j : Json) : Option Transaction := do
  match ← j.members? ["type", "to", "input"] with
  | [kind, destination, input] =>
    let kind ← Json.required TxKind.ofJson? kind
    let destination ← Json.orElse none
      (fun j => match j with
        | .null => some none
        | j => (Fixed.ofJson? 20 j).map some) destination
    let input ← Json.orElse [] Bytes.ofJson? input
    return { kind, destination, input }
  | _ => none

def shape : Json.Shape := .record [("type", .any), ("to", .fixedBytes 20), ("input", .any)]

/-- The transaction that a JSON text writes. -/
def ofString? (s : String) : Option Transaction :=
  (Json.ofShapedString? shape s).bind ofJson?

end Transaction

namespace Log

def toJson (l : Log) : Json :=
  .object [("address", l.address.toJson), ("topics", .array (l.topics.map Fixed.toJson)),
    ("data", Bytes.toJson l.data)]

/-- A log at the given nesting. Its other keys are ignored, but must hold sound values. -/
def ofJson? (depth : Nat) (j : Json) : Option Log := do
  match j with
  | .object pairs =>
    if ¬ j.sound (Json.maxDepth - depth) then none
    let address ← Fixed.ofJson? 20 (← (← Json.single? pairs "address"))
    let topics ← (← (← Json.single? pairs "topics")).array?
    let topics ← topics.mapM (Fixed.ofJson? 32)
    let data ← Bytes.ofJson? (← (← Json.single? pairs "data"))
    return { address, topics, data }
  | _ => none

end Log

namespace Receipt

def toJson (r : Receipt) : Json := .object [("logs", .array (r.logs.map Log.toJson))]

def ofJson? (j : Json) : Option Receipt := do
  match ← j.members? ["logs"] with
  | [logs] =>
    let logs ← (← logs).array?
    return { logs := ← logs.mapM (Log.ofJson? 2) }
  | _ => none

/-- Of a log only the address is read as it comes; topics are read with the other keys. -/
def shape : Json.Shape := .record [("logs", .list (.record [("address", .fixedBytes 20)]))]

/-- The receipt that a JSON text writes. -/
def ofString? (s : String) : Option Receipt := (Json.ofShapedString? shape s).bind ofJson?

end Receipt

end AbiSpan
