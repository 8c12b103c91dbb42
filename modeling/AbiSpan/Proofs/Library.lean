import AbiSpan.Library
import AbiSpan.Proofs.Decoding
import AbiSpan.Proofs.Event.Inputs
import AbiSpan.Proofs.Json.Text

/-!
What is relied on of the library.

What a session does is described for any library, which may give whatever interface and whatever
values it likes. That the ranges picked from a log are those of the event takes a library that
counts the topics of the logs that it reads; that they hold the values that a choice was shown takes
one that reads these from where the encoding has them. The standard library does both.
-/

namespace AbiSpan

/-- The values are read from the log: those of indexed words from their topics, and the words and
payloads of the body from their places in the data. -/
structure LogValues.ReadFrom (values : LogValues) (e : Event) (log : Log)
    (types : List (Bool × AbiType)) : Prop where
  indexed : ∀ (j : Nat) t w, ((types.filter (·.1)).map (·.2))[j]? = some t → t.isWord = true →
    log.topics[e.leadingTopics + j]? = some w → values.indexed[j]? = some (.ofWord t w.bytes)
  body : Value.Reads ((types.filter fun u => !u.1).map (·.2)) log.data values.body

namespace Library

/-- A log is read as one of an event only if it has as many topics as these have. -/
structure CountsTopics (l : Library) : Prop where
  topics : ∀ {e : Event} {log : Log} {values : LogValues}, l.decode e log = .ok values →
    log.topics.length = e.leadingTopics + e.inputs.countP (·.indexed)

/-- Moreover the inputs of the event have types then, and the values are read from the log. -/
structure ReadsValues (l : Library) : Prop extends l.CountsTopics where
  reads : ∀ {e : Event} {log : Log} {values : LogValues}, l.decode e log = .ok values →
    ∃ types, e.inputTypes = .ok types ∧ values.ReadFrom e log types

end Library

/-! ### The standard library -/

namespace Event

variable {e : Event} {log : Log} {values : LogValues}

lemma decode_inv (h : e.decode log = .ok values) : ∃ types, e.inputTypes = .ok types ∧
    Value.decodeRow ((types.filter fun u => !u.1).map (·.2)) log.data = .ok values.body ∧
    values.indexed = List.zipWith topicValue ((types.filter (·.1)).map (·.2))
      (log.topics.drop e.leadingTopics) := by
  unfold decode at h
  obtain ⟨types, htypes, h⟩ := except_bind_eq_ok_iff.mp h
  refine ⟨types, htypes, ?_⟩
  simp only [bind, Except.bind] at h
  split at h
  · cases h
  · split at h
    · cases h
    · split at h
      · cases h
      · split at h
        · rename_i body hbody
          cases h
          exact ⟨hbody, rfl⟩
        · cases h

lemma readFrom_of_decode (h : e.decode log = .ok values) :
    ∃ types, e.inputTypes = .ok types ∧ values.ReadFrom e log types := by
  obtain ⟨types, htypes, hbody, hindexed⟩ := decode_inv h
  refine ⟨types, htypes, fun j t w ht hword hw => ?_, Value.decodeRow_reads hbody⟩
  have htopic : topicValue t w = .ofWord t w.bytes := if_pos hword
  rw [hindexed, List.getElem?_zipWith, ht, List.getElem?_drop, hw, ← htopic]

end Event

/-- **The standard library counts topics and reads values.** -/
theorem Library.readsValues_standard : standard.ReadsValues where
  topics := Event.topics_of_decode
  reads := Event.readFrom_of_decode

/-- It reads the interface that a document declares from the text of the document. -/
theorem Library.interface?_render {doc : Json} (h : Json.Writable .any doc) :
    standard.interface? doc.render = Interface.Reader.ofJson? doc := by
  have hread : Json.ofString? doc.render = some doc := Json.ofShapedString?_render h
  show Interface.ofString? doc.render = _
  rw [Interface.ofString?, hread]
  rfl

end AbiSpan
