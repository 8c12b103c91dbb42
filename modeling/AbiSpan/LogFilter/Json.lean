import AbiSpan.Json
import AbiSpan.LogFilter

/-!
Log filters in JSON. Every member may be left out; of equal component names the last holds.
-/

namespace AbiSpan.LogFilter

def toJson (f : LogFilter) : Json :=
  .object [("level", .string f.level),
    ("components", .object (f.components.map fun (name, level) => (name, .string level))),
    ("json", .bool f.json)]

def componentsOfJson? : Json → Option (List (String × String))
  | .object pairs => pairs.foldlM (fun cs (name, j) => do return insert name (← j.string?) cs) []
  | _ => none

def ofJson? (j : Json) : Option LogFilter := do
  match ← j.members? ["level", "components", "json"] with
  | [level, components, json] =>
    let absent : LogFilter := {}
    let level ← Json.orElse absent.level Json.string? level
    let components ← Json.orElse absent.components componentsOfJson? components
    let json ← Json.orElse absent.json Json.bool? json
    return { level, components, json }
  | _ => none

end AbiSpan.LogFilter
