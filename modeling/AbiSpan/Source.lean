import AbiSpan.Address
import AbiSpan.Fault

/-!
Where the interfaces of contracts come from.

A source answers with the text of an interface. What it answers may depend on every question
put before, to this source or to another; these are handed to it, the earliest first.
-/

namespace AbiSpan

structure Source where
  answer : (earlier : List Address) → Address → Except LookupFault String

namespace Source

/-- A fixed table; the text under an address that stands first counts. Addresses without a text
get the `fallback`, if there is one. -/
def table (texts : List (Address × String)) (fallback : Option String) : Source where
  answer _ a :=
    match ((texts.find? (·.1 == a)).map (·.2)).or fallback with
    | some text => .ok text
    | none => .error (.notFound a.checksummed)

/-- One answer of a script. -/
inductive Response where
  | text (s : String)
  | failure (reason : String)
  | nothing
deriving DecidableEq, Repr

/-- The response to question number `n`: the last one answers all that follow. -/
def Response.pick (rs : List Response) (n : Nat) : Response := (rs[n]?.or rs.getLast?).getD .nothing

/-- Answers that follow each other, for each address. -/
def script (responses : List (Address × List Response)) : Source where
  answer earlier a :=
    let rs := ((responses.find? (·.1 == a)).map (·.2)).getD []
    match Response.pick rs (earlier.count a) with
    | .text s => .ok s
    | .failure reason => .error (.fetchFailed a.checksummed reason)
    | .nothing => .error (.notFound a.checksummed)

end Source

end AbiSpan
