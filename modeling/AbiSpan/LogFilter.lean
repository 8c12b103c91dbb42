/-!
Which of a program's log messages are shown: a level for everything, and levels of single
components. The components are kept in the order of their names, each once.
-/

namespace AbiSpan

structure LogFilter where
  level : String := "info"
  components : List (String × String) := []
  /-- Messages are written as JSON. -/
  json : Bool := false
deriving DecidableEq, Repr

namespace LogFilter

/-- Puts a level under a name, over the level that stands there. -/
def insert (name level : String) : List (String × String) → List (String × String)
  | [] => [(name, level)]
  | (n, l) :: rest =>
    if name < n then (name, level) :: (n, l) :: rest
    else if name = n then (name, level) :: rest
    else (n, l) :: insert name level rest

def withComponent (f : LogFilter) (name level : String) : LogFilter :=
  { f with components := insert name level f.components }

/-- A component's name as messages carry it, hyphens written as underscores. -/
def target (name : String) : String := name.map fun c => if c = '-' then '_' else c

/-- The level, then the level of every component. -/
def directives (f : LogFilter) : String :=
  f.components.foldl (fun s (name, level) => s ++ "," ++ target name ++ "=" ++ level) f.level

end LogFilter

end AbiSpan
