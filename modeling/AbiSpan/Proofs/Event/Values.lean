import AbiSpan.Proofs.Event.Pick
import AbiSpan.Proofs.Library

/-!
What the arguments picked from a log mean.

A log is decoded as a whole before it is chosen, and its arguments are picked one by one
afterwards. If picking an argument succeeds, the bytes selected mean, by themselves, the value
that the choice was shown: a word or a payload of the data is the one its value was decoded from,
and an indexed word is its topic. Indexed values of other types leave a hash only, which no
selection can agree with.
-/

namespace AbiSpan

namespace Event

variable {e : Event} {name : String} {before : List Param} {p : Param}
  {types : List (Bool × AbiType)}

/-- What stands on the right, opposite an entry on the left. -/
lemma exists_right_at {α β : Type} {P : α → β → Prop} {as : List α} {bs : List β}
    (h : List.Forall₂ P as bs) {i : ℕ} {a : α} (ha : as[i]? = some a) :
    ∃ b, bs[i]? = some b ∧ P a b := by
  induction h generalizing i with
  | nil => cases ha
  | @cons a' b' as bs hab _ ih =>
    cases i with
    | zero =>
      cases ha
      exact ⟨b', rfl, hab⟩
    | succ i => exact ih ha

/-- The input is of this kind, indexed or not, and has this type. -/
def Typed (p : Param) (u : Bool × AbiType) : Prop := p.indexed = u.1 ∧ p.type = .ok u.2

lemma forall₂_inputTypes (h : e.inputTypes = .ok types) : List.Forall₂ Typed e.inputs types := by
  refine (except_mapM_eq_ok_iff.mp h).imp fun p u hu => ?_
  split at hu
  · rename_i t ht
    cases hu
    exact ⟨rfl, ht⟩
  · cases hu

/-- Inputs of one kind have the types of that kind. -/
lemma forall₂_filter {ps : List Param} (h : List.Forall₂ Typed ps types) (f : Bool → Bool) :
    List.Forall₂ (fun p t => p.type = .ok t) (ps.filter fun p => f p.indexed)
      ((types.filter fun u => f u.1).map (·.2)) := by
  induction h with
  | nil => exact .nil
  | @cons p u ps us hu _ ih =>
    obtain ⟨hindexed, htype⟩ := hu
    cases hf : f p.indexed with
    | false =>
      rw [List.filter_cons_of_neg (by simp [hf]),
        List.filter_cons_of_neg (by simp [← hindexed, hf])]
      exact ih
    | true =>
      rw [List.filter_cons_of_pos (by simp [hf]),
        List.filter_cons_of_pos (by simp [← hindexed, hf])]
      exact .cons htype ih

/-- The types that the log is decoded by are those that its data is walked by. -/
lemma rowTypes_bodyInputs (h : e.inputTypes = .ok types) :
    Param.rowTypes e.bodyInputs = .ok ((types.filter fun u => !u.1).map (·.2)) := by
  refine except_mapM_eq_ok_iff.mpr ((forall₂_filter (forall₂_inputTypes h) not).imp ?_)
  intro p t ht
  rw [ht]

/-- The type of an input stands among those of its kind, behind those of the inputs before it. -/
lemma FirstInput.type_at (hfirst : e.FirstInput name before p) (h : e.inputTypes = .ok types)
    (f : Bool → Bool) (hp : f p.indexed = true) : ∃ t, p.type = .ok t ∧
      ((types.filter fun u => f u.1).map (·.2))[before.countP fun q => f q.indexed]? = some t := by
  obtain ⟨⟨after, hinputs⟩, -, -⟩ := hfirst
  have hat : (e.inputs.filter fun q => f q.indexed)[before.countP fun q => f q.indexed]? =
      some p := by
    rw [hinputs, List.filter_append, List.filter_cons_of_pos (by simpa using hp),
      List.countP_eq_length_filter, List.getElem?_append_right (Nat.le_refl _), Nat.sub_self]
    rfl
  obtain ⟨t, ht, htype⟩ := exists_right_at (forall₂_filter (forall₂_inputTypes h) f) hat
  exact ⟨t, htype, ht⟩

end Event

/-- The bytes that a range selects mean, by themselves, the value decoded for the input `p` of type
`t`, if that is a word or a payload of the data or an indexed word; `before` are the inputs before
it. -/
structure LogValues.Means (values : LogValues) (encoded : Bytes) (before : List Param) (p : Param)
    (t : AbiType) (span : Span) : Prop where
  body : p.indexed = false → t.isScalar = true ∨ t.isPayload = true →
    ∃ s, span.slice? encoded = some s ∧
      values.body[before.countP fun q => !q.indexed]? = some (.ofSelected t s)
  indexed : p.indexed = true → t.isWord = true → ∃ s, span.slice? encoded = some s ∧
    values.indexed[before.countP (·.indexed)]? = some (.ofSelected t s)

namespace LogScope

variable {s : LogScope} {log : Log} {values : LogValues} {name : String} {before : List Param}
  {p : Param} {span : Span} {types : List (Bool × AbiType)}

/-- An input of the data is read from the bytes that are picked for it. -/
lemma means_body (htypes : s.event.inputTypes = .ok types)
    (hreads : values.ReadFrom s.event log types) (hfirst : s.event.FirstInput name before p)
    (hp : p.indexed = false)
    (hpick : s.PicksBody log (before.countP fun q => !q.indexed) (.ok span)) :
    ∃ t, p.type = .ok t ∧ values.Means s.encoded before p t span := by
  obtain ⟨t, htype, hat⟩ := hfirst.type_at htypes not (by simp [hp])
  refine ⟨t, htype, fun _ hshape => ?_, fun hp' => by rw [hp] at hp'; cases hp'⟩
  obtain ⟨nodes, m, htree, hm, -⟩ := hpick.ok_iff.mp ⟨span, rfl⟩
  obtain ⟨types', htypes', hwalk⟩ := htree
  rw [Event.rowTypes_bodyInputs htypes] at htypes'
  cases htypes'
  obtain ⟨m', b, hm', hslice, hvalue⟩ := hreads.body.selected hwalk hat hshape
  rw [hm] at hm'
  cases hm'
  obtain ⟨b', hslice', hselected⟩ := hpick.selects span nodes m rfl
    ⟨_, Event.rowTypes_bodyInputs htypes, hwalk⟩ hm
  rw [hslice] at hslice'
  cases hslice'
  exact ⟨b, hselected, hvalue⟩

/-- An indexed word is its topic. -/
lemma means_topic (htypes : s.event.inputTypes = .ok types)
    (hreads : values.ReadFrom s.event log types) (hfirst : s.event.FirstInput name before p)
    (hp : p.indexed = true) {w : Topic}
    (hw : log.topics[s.event.leadingTopics + before.countP (·.indexed)]? = some w)
    (hselects : Selects s.encoded (.ok span) w.bytes) :
    ∃ t, p.type = .ok t ∧ values.Means s.encoded before p t span := by
  obtain ⟨t, htype, hat⟩ := hfirst.type_at htypes id hp
  refine ⟨t, htype, fun hp' => (by rw [hp] at hp'; cases hp'), fun _ hword => ?_⟩
  obtain ⟨_, ⟨⟩, hslice⟩ := hselects
  refine ⟨w.bytes, hslice, ?_⟩
  rw [Value.ofSelected_of_isWord hword]
  exact hreads.indexed _ t w hat hword hw

/-- What is picked for an argument means its decoded value. -/
lemma means_of_picksRight (htypes : s.event.inputTypes = .ok types)
    (hreads : values.ReadFrom s.event log types)
    (hpick : s.PicksRight log (.argument name) (.ok span))
    (hfirst : s.event.FirstInput name before p) :
    ∃ t, p.type = .ok t ∧ values.Means s.encoded before p t span := by
  obtain ⟨htopic, hbody⟩ := hpick.2 before p hfirst
  cases hp : p.indexed with
  | false => exact means_body htypes hreads hfirst hp (hbody hp)
  | true =>
    obtain ⟨w, hw, hselects⟩ := htopic hp
    exact means_topic htypes hreads hfirst hp hw hselects

end LogScope

end AbiSpan
