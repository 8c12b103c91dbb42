import AbiSpan.AbiType.Descriptor
import AbiSpan.Field
import AbiSpan.Node
import AbiSpan.TxKind

/-!
Which fields a record has, in which order and of which types, by the kind of its transaction.

The tables give the types as texts. `index` lays the names of a schema over a row of nodes, which
must be as many as the fields and of the same types, compared by their names.
-/

namespace AbiSpan

/-- Editions of the record layout. -/
inductive Edition where
  | v1
deriving DecidableEq, Repr, Inhabited

namespace Edition

def name : Edition → String
  | .v1 => "V1"

def ofName? (s : String) : Option Edition := if s = "V1" then some .v1 else none

end Edition

/-- A text for a type, and the type that it denotes. -/
structure Descriptor where
  text : String
  type : AbiType
  parses : AbiType.ofDescriptor text = .ok type

namespace Descriptor

/-- A text by its shape. -/
def ofShape (text : String) (shape : TypeText) (type : AbiType)
    (hshape : TypeText.ofString? text = some shape) (htype : shape.resolve = .ok type) :
    Descriptor where
  text := text
  type := type
  parses := by simp [AbiType.ofDescriptor, AbiType.ofString, hshape, htype]

def uint8 : Descriptor := ofShape "uint8" (.named "uint8" []) (.uint 8) rfl rfl

def uint64 : Descriptor := ofShape "uint64" (.named "uint64" []) (.uint 64) rfl rfl

def uint128 : Descriptor := ofShape "uint128" (.named "uint128" []) (.uint 128) rfl rfl

def uint256 : Descriptor := ofShape "uint256" (.named "uint256" []) (.uint 256) rfl rfl

def address : Descriptor := ofShape "address" (.named "address" []) .address rfl rfl

def bytes : Descriptor := ofShape "bytes" (.named "bytes" []) .bytes rfl rfl

def bytes32 : Descriptor := ofShape "bytes32" (.named "bytes32" []) (.fixedBytes 32) rfl rfl

def hashes : Descriptor :=
  ofShape "bytes32[]" (.named "bytes32" [none]) (.array (.fixedBytes 32)) rfl rfl

def accessList : Descriptor :=
  ofShape "(address,bytes32[])[]" (.tuple [.named "address" [], .named "bytes32" [none]] [none])
    (.array (.tuple [.address, .array (.fixedBytes 32)])) rfl rfl

/-- Chain id, address, nonce, parity of `y`, `r` and `s`. -/
def authorizations : Descriptor :=
  ofShape "(uint256,address,uint64,uint8,uint256,uint256)[]"
    (.tuple [.named "uint256" [], .named "address" [], .named "uint64" [], .named "uint8" [],
      .named "uint256" [], .named "uint256" []] [none])
    (.array (.tuple [.uint 256, .address, .uint 64, .uint 8, .uint 256, .uint 256])) rfl rfl

/-- Of each log who emitted it, its topics and its data. -/
def logs : Descriptor :=
  ofShape "(address,bytes32[],bytes)[]"
    (.tuple [.named "address" [], .named "bytes32" [none], .named "bytes" []] [none])
    (.array (.tuple [.address, .array (.fixedBytes 32), .bytes])) rfl rfl

end Descriptor

/-- Fields in order, each with the text of its type. -/
abbrev FieldTable := List (Field × Descriptor)

namespace FieldTable

/-- Every record ends with these. -/
def receipt : FieldTable :=
  [(.status, .uint8), (.gasUsed, .uint64), (.logs, .logs), (.logBlooms, .bytes)]

def call : FieldTable :=
  [(.gasLimit, .uint64), (.sender, .address), (.recipient, .address), (.value, .uint256),
   (.data, .bytes)]

def signature : FieldTable := [(.r, .bytes32), (.s, .bytes32)]

/-- What a transaction with a fee cap begins with. -/
def capped : FieldTable :=
  [(.type, .uint8), (.chainId, .uint64), (.nonce, .uint64), (.maxPriorityFeePerGas, .uint128),
   (.maxFeePerGas, .uint128)] ++
  call ++ [(.accessList, .accessList)]

def transaction : TxKind → FieldTable
  | .legacy =>
    [(.type, .uint8), (.nonce, .uint64), (.gasPrice, .uint128)] ++ call ++ [(.v, .uint256)] ++
    signature
  | .accessList =>
    [(.type, .uint8), (.chainId, .uint64), (.nonce, .uint64), (.gasPrice, .uint128)] ++ call ++
    [(.accessList, .accessList), (.yParity, .uint8)] ++ signature
  | .dynamicFee => capped ++ [(.yParity, .uint8)] ++ signature
  | .blob =>
    capped ++ [(.maxFeePerBlobGas, .uint128), (.blobVersionedHashes, .hashes),
      (.yParity, .uint8)] ++ signature
  | .setCode =>
    capped ++ [(.signedAuthorizations, .authorizations), (.yParity, .uint8)] ++ signature

/-- The fields of a record. -/
def ofKind : Edition → TxKind → FieldTable
  | .v1, k => transaction k ++ receipt

end FieldTable

abbrev Schema := List (Field × AbiType)

namespace Schema

/-- Reads the texts of a table, the first bad one being the fault. -/
def read (table : FieldTable) : Except QueryFault Schema :=
  table.mapM fun entry => do return (entry.1, ← AbiType.ofDescriptor entry.2.text)

/-- What the texts of a table denote. -/
def denoted (table : FieldTable) : Schema := table.map fun entry => (entry.1, entry.2.type)

theorem read_eq (table : FieldTable) : read table = .ok (denoted table) := by
  induction table with
  | nil => rfl
  | cons entry table ih =>
    unfold read at ih ⊢
    rw [List.mapM_cons, entry.2.parses, ih]
    rfl

/-- The fields of a record, with their types. -/
def ofKind (e : Edition) (k : TxKind) : Schema := denoted (.ofKind e k)

/-- The texts of every table can be read. -/
theorem read_ofKind (e : Edition) (k : TxKind) : read (.ofKind e k) = .ok (ofKind e k) :=
  read_eq _

def types (s : Schema) : List AbiType := s.map (·.2)

/-- Read as a list of descriptors, the texts of a table are the types of its fields. -/
theorem ofDescriptors_texts (table : FieldTable) :
    AbiType.ofDescriptors (table.map (·.2.text)) = .ok (denoted table).types := by
  induction table with
  | nil => rfl
  | cons entry table ih =>
    unfold AbiType.ofDescriptors at ih ⊢
    rw [List.map_cons, List.mapM_cons, entry.2.parses, ih]
    rfl

def typeOf? (s : Schema) (f : Field) : Option AbiType := (s.find? (·.1 == f)).map (·.2)

/-- The fields of the catalog that the schema lacks. -/
def missing (s : Schema) : List Field := Field.catalog.filter fun f => (s.typeOf? f).isNone

/-- Where each field stands in the row. -/
abbrev Index := List (Field × Nat)

namespace Index

def place? (i : Index) (f : Field) : Option Nat := (i.find? (·.1 == f)).map (·.2)

/-- A place that the field has had is forgotten. -/
def insert (i : Index) (f : Field) (place : Nat) : Index :=
  i.filter (·.1 != f) ++ [(f, place)]

/-- Only the place of the field changes. -/
theorem place?_insert (i : Index) (f g : Field) (place : Nat) :
    (i.insert f place).place? g = if g = f then some place else i.place? g := by
  by_cases h : g = f
  · have hnone : (i.filter (·.1 != g)).find? (·.1 == g) = none := by simp
    simp [place?, insert, List.find?_append, ← h, hnone]
  · have hkept : (i.filter (·.1 != f)).find? (·.1 == g) = i.find? (·.1 == g) := by
      rw [List.find?_filter]
      congr
      funext entry
      by_cases hg : entry.1 = g <;> simp [hg, h]
    simp [place?, insert, List.find?_append, hkept, Ne.symm h, h]

end Index

/-- Gives the fields of a schema the places of a row of nodes, the first of which is `place`. -/
def enter (i : Index) (place : Nat) : Schema → List Node → Except QueryFault Index
  | (f, t) :: s, n :: ns =>
    if t.name = n.type.name then enter (i.insert f place) (place + 1) s ns
    else .error (.typeMismatch f.name t.name n.type.name)
  | _, _ => .ok i

def index (s : Schema) (nodes : List Node) : Except QueryFault Index :=
  if s.length ≠ nodes.length then .error (.countMismatch s.length nodes.length)
  else enter [] 0 s nodes

end Schema

end AbiSpan
