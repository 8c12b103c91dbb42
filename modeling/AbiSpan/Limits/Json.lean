import AbiSpan.Json
import AbiSpan.Limits
import AbiSpan.Span

/-!
Limits, settings and ranges in JSON. Members of limits and settings may be left out.
-/

namespace AbiSpan

namespace Span

def toJson (s : Span) : Json := .object [("offset", .natural s.offset), ("size", .natural s.size)]

def ofJson? (j : Json) : Option Span := do
  match ← j.members? ["offset", "size"] with
  | [offset, size] =>
    let offset ← Json.required (Json.natBelow? offsetBound) offset
    let size ← Json.required (Json.natBelow? offsetBound) size
    return { offset, size }
  | _ => none

end Span

namespace Limits

def toJson (l : Limits) : Json :=
  .object [("max_inflation", .natural l.maxInflation), ("allow_loose", .bool l.allowLoose)]

def ofJson? (j : Json) : Option Limits := do
  match ← j.members? ["max_inflation", "allow_loose"] with
  | [maxInflation, allowLoose] =>
    let absent : Limits := {}
    let maxInflation ←
      Json.orElse absent.maxInflation (Json.natBelow? offsetBound) maxInflation
    let allowLoose ← Json.orElse absent.allowLoose Json.bool? allowLoose
    return { maxInflation, allowLoose }
  | _ => none

end Limits

namespace Settings

def toJson (s : Settings) : Json :=
  .object [("resolver", s.limits.toJson), ("loose_event_data", .bool s.looseLogData)]

def ofJson? (j : Json) : Option Settings := do
  match ← j.members? ["resolver", "loose_event_data"] with
  | [limits, looseLogData] =>
    let absent : Settings := {}
    let limits ← Json.orElse absent.limits Limits.ofJson? limits
    let looseLogData ← Json.orElse absent.looseLogData Json.bool? looseLogData
    return { limits, looseLogData }
  | _ => none

end Settings

end AbiSpan
