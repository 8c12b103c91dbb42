import AbiSpan.Layout
import AbiSpan.Library
import AbiSpan.Schema
import AbiSpan.Transaction

/-!
An encoded transaction, located field by field.

The kind of the transaction gives the schema. Everything a record holds is fixed once the record
is open.
-/

namespace AbiSpan

structure Record where
  tx : Transaction
  receipt : Receipt
  encoded : Bytes
  settings : Settings
  /-- What reads the interfaces and the logs that are met in queries. -/
  library : Library
  /-- Where the fields lie. -/
  tree : List Node
  /-- Which node belongs to which field. -/
  index : Schema.Index

namespace Record

/-- The node of a field, if the record has that field. -/
def field? (r : Record) (f : Field) : Option Node := (r.index.place? f).bind fun i => r.tree[i]?

/-- How many logs the encoded record has. -/
def logCount (r : Record) : Nat := ((r.field? .logs).map (·.children.length)).getD 0

/-- What is reported once the record is open. -/
def openingNotices (r : Record) : List Notice :=
  (if r.logCount = r.receipt.logs.length then []
   else [.logCountsDiffer r.logCount r.receipt.logs.length]) ++
  [.sessionOpened r.tx.kind r.tree.length r.encoded.length]

/-- Locates the fields of a record, and reports how. -/
def ofEncoded (tx : Transaction) (receipt : Receipt) (encoded : Bytes) (settings : Settings)
    (library : Library := .standard) : Except QueryFault (Record × List Notice) :=
  match Schema.read (.ofKind .v1 tx.kind) with
  | .error fault => .error fault
  | .ok schema =>
    let b : Buffer := { bytes := encoded, limits := settings.limits }
    let (result, progress) := Layout.locate b schema.types
    match result with
    | .error fault => .error (.reading fault)
    | .ok tree =>
      match schema.index tree with
      | .error fault => .error fault
      | .ok index =>
        let r : Record := { tx, receipt, encoded, settings, library, tree, index }
        .ok (r, progress.notices.toList ++ r.openingNotices)

/-- What an opened record is made of. -/
theorem ofEncoded_inv {tx : Transaction} {receipt : Receipt} {encoded : Bytes} {settings : Settings}
    {library : Library} {r : Record} {notices : List Notice}
    (h : ofEncoded tx receipt encoded settings library = .ok (r, notices)) :
    ∃ tree index progress,
      Layout.locate { bytes := encoded, limits := settings.limits }
        (Schema.ofKind .v1 tx.kind).types = (.ok tree, progress) ∧
      (Schema.ofKind .v1 tx.kind).index tree = .ok index ∧
      r = { tx, receipt, encoded, settings, library, tree, index } ∧
      notices = progress.notices.toList ++ r.openingNotices := by
  simp only [ofEncoded, Schema.read_ofKind] at h
  rcases hlocate : Layout.locate { bytes := encoded, limits := settings.limits }
    (Schema.ofKind .v1 tx.kind).types with ⟨fault | tree, progress⟩
  · simp [hlocate] at h
  · simp only [hlocate] at h
    cases hindex : (Schema.ofKind .v1 tx.kind).index tree with
    | error fault => simp [hindex] at h
    | ok index =>
      simp only [hindex, Except.ok.injEq, Prod.mk.injEq] at h
      obtain ⟨rfl, rfl⟩ := h
      exact ⟨tree, index, progress, rfl, hindex, rfl, rfl⟩

end Record

end AbiSpan
