import AbiSpan.Fault

/-!
The catalog of fields that a transaction record can have.
-/

namespace AbiSpan

inductive Field where
  | type
  | chainId
  | nonce
  | gasPrice
  | gasLimit
  | sender
  | recipient
  | value
  | data
  | v
  | r
  | s
  | yParity
  | accessList
  | maxPriorityFeePerGas
  | maxFeePerGas
  | maxFeePerBlobGas
  | blobVersionedHashes
  | signedAuthorizations
  | status
  | gasUsed
  | logs
  | logBlooms
deriving DecidableEq, Repr, Inhabited

namespace Field

/-- Every field, in catalog order. -/
def catalog : List Field :=
  [.type, .chainId, .nonce, .gasPrice, .gasLimit, .sender, .recipient, .value, .data, .v, .r, .s,
   .yParity, .accessList, .maxPriorityFeePerGas, .maxFeePerGas, .maxFeePerBlobGas,
   .blobVersionedHashes, .signedAuthorizations, .status, .gasUsed, .logs, .logBlooms]

def name : Field → String
  | .type => "type"
  | .chainId => "chainId"
  | .nonce => "nonce"
  | .gasPrice => "gasPrice"
  | .gasLimit => "gasLimit"
  | .sender => "from"
  | .recipient => "to"
  | .value => "value"
  | .data => "data"
  | .v => "v"
  | .r => "r"
  | .s => "s"
  | .yParity => "yParity"
  | .accessList => "accessList"
  | .maxPriorityFeePerGas => "maxPriorityFeePerGas"
  | .maxFeePerGas => "maxFeePerGas"
  | .maxFeePerBlobGas => "maxFeePerBlobGas"
  | .blobVersionedHashes => "blobVersionedHashes"
  | .signedAuthorizations => "signedAuthorizations"
  | .status => "rxStatus"
  | .gasUsed => "rxGasUsed"
  | .logs => "rxLogs"
  | .logBlooms => "rxLogBlooms"

/-- The field comes from the receipt and not from the transaction. -/
def ofReceipt : Field → Bool
  | .status | .gasUsed | .logs | .logBlooms => true
  | _ => false

/-- Where the field stands in the catalog. -/
def position (f : Field) : Nat := catalog.idxOf f

def ofName? (s : String) : Option Field := catalog.find? fun f => f.name == s

def ofName (s : String) : Except QueryFault Field :=
  match ofName? s with
  | some f => .ok f
  | none => .error (.unknownArgument s "queryable field catalog")

theorem mem_catalog (f : Field) : f ∈ catalog := by cases f <;> decide

theorem nodup_catalog : catalog.Nodup := by decide

@[simp] theorem ofName?_name (f : Field) : ofName? f.name = some f := by cases f <;> decide

theorem name_of_ofName? {s : String} {f : Field} (h : ofName? s = some f) : f.name = s := by
  have h' := List.find?_some h
  exact eq_of_beq h'

end Field

end AbiSpan
