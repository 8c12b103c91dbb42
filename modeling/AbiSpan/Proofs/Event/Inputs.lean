import AbiSpan.LogMatch
import AbiSpan.LogScope
import Mathlib.Tactic

/-!
The inputs of an event, and the topics of its logs.

An input is asked for by its name, and of several of one name the first is meant. Where it stands
is counted in the inputs before it: an indexed input has a topic of its own, behind the hash if
there is one, and the others follow each other in the data. A log that is read as one of an event
has just the topics that this needs.
-/

namespace AbiSpan

namespace Event

variable {e : Event} {name : String} {before : List Param} {p : Param} {log : Log}
  {values : LogValues}

/-- The first input of a name is `p`, and `before` are those before it. -/
structure FirstInput (e : Event) (name : String) (before : List Param) (p : Param) : Prop where
  inputs_eq : ∃ after, e.inputs = before ++ p :: after
  name_eq : p.name = name
  before_ne : ∀ q ∈ before, q.name ≠ name

lemma place?_eq_none (h : ∀ p ∈ e.inputs, p.name ≠ name) : e.place? name = none := by
  have hfind : e.inputs.find? (fun p => p.name == name) = none := by
    simpa using h
  simp [place?, hfind]

lemma FirstInput.place? (h : e.FirstInput name before p) : e.place? name = some
    (if p.indexed then .topic (e.leadingTopics + before.countP (·.indexed))
      else .data (before.countP fun q => !q.indexed)) := by
  obtain ⟨⟨after, hinputs⟩, hname, hbefore⟩ := h
  have hfind : e.inputs.find? (fun p => p.name == name) = some p := by
    rw [hinputs, List.find?_append, List.find?_eq_none.mpr (by simpa using hbefore)]
    simp [hname]
  have htake : e.inputs.takeWhile (fun p => p.name != name) = before := by
    rw [hinputs, List.takeWhile_append_of_pos (by simpa using hbefore)]
    simp [hname]
  simp [Event.place?, hfind, htake]

/-- An indexed input is counted among the topics. -/
lemma FirstInput.countP_lt (h : e.FirstInput name before p) (hp : p.indexed = true) :
    before.countP (·.indexed) < e.inputs.countP (·.indexed) := by
  obtain ⟨⟨after, hinputs⟩, -, -⟩ := h
  rw [hinputs, List.countP_append, List.countP_cons, hp]
  simp only [if_true]
  omega

/-! ### Logs of an event -/

lemma map_fst_inputTypes {types : List (Bool × AbiType)} (h : e.inputTypes = .ok types) :
    types.map (·.1) = e.inputs.map (·.indexed) := by
  unfold inputTypes at h
  generalize e.inputs = ps at h
  induction ps generalizing types with
  | nil => cases h; rfl
  | cons p ps ih =>
    rw [List.mapM_cons] at h
    cases ht : p.type with
    | error fault => simp [ht, bind, Except.bind] at h
    | ok t =>
      simp only [ht, bind, Except.bind] at h
      split at h
      · cases h
      · rename_i rest hrest
        cases h
        rw [List.map_cons, List.map_cons, ih hrest]

/-- So many topics are left for the inputs as there are indexed ones. -/
lemma length_indexed_inputTypes {types : List (Bool × AbiType)} (h : e.inputTypes = .ok types) :
    ((types.filter (·.1)).map (·.2)).length = e.inputs.countP (·.indexed) := by
  have hmap := congrArg (List.countP id) (map_fst_inputTypes h)
  rw [List.countP_map, List.countP_map] at hmap
  rw [List.length_map, ← List.countP_eq_length_filter]
  exact hmap

/-- What a log is like that is one of an event. -/
structure Emits (e : Event) (log : Log) : Prop where
  topics : log.topics.length = e.leadingTopics + e.inputs.countP (·.indexed)
  hash : e.anonymous = false → log.topics.head? = some e.selector

lemma topics_of_decode (h : e.decode log = .ok values) :
    log.topics.length = e.leadingTopics + e.inputs.countP (·.indexed) := by
  unfold decode at h
  cases ht : e.inputTypes with
  | error fault => simp [ht, bind, Except.bind] at h
  | ok types =>
    simp only [ht, bind, Except.bind, length_indexed_inputTypes ht] at h
    split at h
    · cases h
    · split at h
      · cases h
      · rename_i hcount
        omega

end Event

end AbiSpan
