import AbiSpan.Fault

/-!
Kinds of transactions, by their type byte.
-/

namespace AbiSpan

inductive TxKind where
  /-- A single gas price. -/
  | legacy
  /-- Adds the chain and an access list. -/
  | accessList
  /-- A fee cap and a priority fee. -/
  | dynamicFee
  /-- Carries blobs. -/
  | blob
  /-- Carries authorizations to set code. -/
  | setCode
deriving DecidableEq, Repr, Inhabited

namespace TxKind

def code : TxKind → Nat
  | .legacy => 0
  | .accessList => 1
  | .dynamicFee => 2
  | .blob => 3
  | .setCode => 4

def ofCode? : Nat → Option TxKind
  | 0 => some .legacy
  | 1 => some .accessList
  | 2 => some .dynamicFee
  | 3 => some .blob
  | 4 => some .setCode
  | _ => none

def ofCode (n : Nat) : Except QueryFault TxKind :=
  match ofCode? n with
  | some k => .ok k
  | none => .error (.unknownTxKind n)

/-- The kind as a name. -/
def label : TxKind → String
  | .legacy => "Legacy"
  | .accessList => "AccessList"
  | .dynamicFee => "DynamicFee"
  | .blob => "Blob"
  | .setCode => "SetCode"

@[simp] theorem ofCode?_code (k : TxKind) : ofCode? k.code = some k := by cases k <;> rfl

theorem code_of_ofCode? {n : Nat} {k : TxKind} (h : ofCode? n = some k) : k.code = n := by
  unfold ofCode? at h
  split at h <;> cases h <;> rfl

end TxKind

end AbiSpan
