import AbiSpan.Session

/-!
A session in one line of text.
-/

namespace AbiSpan

namespace Span

/-- The range with its parts named. -/
def summary (s : Span) : String :=
  "Selection \x7b offset: " ++ toString s.offset ++ ", size: " ++ toString s.size ++ " \x7d"

end Span

namespace Transaction

def summary (t : Transaction) : String :=
  let destination := match t.destination with
    | none => "None"
    | some a => "Some(" ++ a.plain ++ ")"
  "TxContext \x7b tx_type: " ++ t.kind.label ++ ", to: " ++ destination ++ ", input: " ++
    Hex.marked t.input ++ " \x7d"

end Transaction

namespace Session

/-- The transaction, how much there is of the rest, and the ranges gathered. -/
def summary (s : Session) : String :=
  "QueryBuilder \x7b tx: " ++ s.record.tx.summary ++
    ", logs: " ++ toString s.record.receipt.logs.length ++
    ", encoded_len: " ++ toString s.record.encoded.length ++
    ", has_abi_provider: " ++ (if s.source.isSome then "true" else "false") ++
    ", selections: [" ++ ", ".intercalate (s.spans.map Span.summary) ++ "], .. \x7d"

end Session

end AbiSpan
