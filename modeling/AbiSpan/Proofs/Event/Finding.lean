import AbiSpan.LogMatch
import Mathlib.Tactic

/-!
Which event a log is found to be of.

The event whose hash stands in topic zero is the first one declared with it; a log of an event that
is declared so is that event's or no one's. Only where none is declared, and only for keys that are
no hashes, the anonymous events are tried, and the first counts that the key names and the log can
be read as. `Finds` and `Refuses` say this of the list of events itself, and both ways of ending are
determined by the interface, the key and the log.
-/

namespace AbiSpan

namespace Event

/-- The event is declared with the hash. -/
def Declares (e : Event) (hash : Topic) : Prop := e.anonymous = false ∧ e.selector = hash

/-- The event is anonymous, the key names it, and the log can be read as one of it. -/
def Allows (e : Event) (l : Library) (key : ItemKey) (log : Log) : Prop :=
  e.anonymous = true ∧ e.named key = true ∧ ∃ values, l.decode e log = .ok values

end Event

namespace Interface

/-- The first event that has a property. -/
def First (i : Interface) (P : Event → Prop) (e : Event) : Prop :=
  P e ∧ ∃ before after, i.events = before ++ e :: after ∧ ∀ e' ∈ before, ¬ P e'

/-- The log, of topic zero `hash`, is found to be of the event and to have the values. -/
inductive Finds (i : Interface) (l : Library) (key : ItemKey) (log : Log) (hash : Topic) (e : Event)
    (values : LogValues) : Prop
  | declared : i.First (·.Declares hash) e → e.named key = true → l.decode e log = .ok values →
    Finds i l key log hash e values
  | anonymous : (∀ e' ∈ i.events, ¬ e'.Declares hash) → key.isHash = false →
    i.First (·.Allows l key log) e → l.decode e log = .ok values → Finds i l key log hash e values

/-- The log cannot be read as one of the event that it should be of. -/
inductive Refuses (i : Interface) (l : Library) (key : ItemKey) (log : Log) (hash : Topic) :
    LogFault → Prop
  | undecodable {e : Event} {fault : LogFault} : i.First (·.Declares hash) e →
    e.named key = true → l.decode e log = .error fault → Refuses i l key log hash fault
  | undeclared : (∀ e' ∈ i.events, ¬ e'.Declares hash) → key.isHash = true →
    Refuses i l key log hash (.undeclared hash)

variable {i : Interface} {l : Library} {key : ItemKey} {log : Log} {hash : Topic} {e : Event}
  {values : LogValues} {fault : LogFault}

lemma First.congr {P Q : Event → Prop} (h : ∀ e, P e ↔ Q e) : i.First P e ↔ i.First Q e := by
  rw [show P = Q from funext fun e => propext (h e)]

lemma find?_eq_some_iff {p : Event → Bool} :
    i.events.find? p = some e ↔ i.First (fun e => p e = true) e := by
  rw [List.find?_eq_some_iff_append]
  simp [First]

lemma declared?_eq_some_iff : i.declared? hash = some e ↔ i.First (·.Declares hash) e := by
  rw [declared?, find?_eq_some_iff]
  exact First.congr fun e => by simp [Event.Declares]

lemma declared?_eq_none_iff : i.declared? hash = none ↔ ∀ e ∈ i.events, ¬ e.Declares hash := by
  rw [declared?, List.find?_eq_none]
  simp [Event.Declares]

lemma not_declares_of_first (h : ∀ e ∈ i.events, ¬ e.Declares hash) :
    ¬ i.First (·.Declares hash) e := by
  rintro ⟨hdeclares, before, after, hevents, -⟩
  exact h e (by simp [hevents]) hdeclares

lemma toOption_decode_eq_some_iff :
    (l.decode e log).toOption = some values ↔ l.decode e log = .ok values := by
  cases l.decode e log <;> simp [Except.toOption]

/-- What an anonymous event is tried for. -/
lemma allows_iff : e.Allows l key log ↔
    (e.anonymous && e.named key) = true ∧ ∃ values, (l.decode e log).toOption = some values := by
  simp only [Event.Allows, toOption_decode_eq_some_iff, Bool.and_eq_true, and_assoc]

lemma anonymous?_eq_some_iff : i.anonymous? l key log = some (e, values) ↔
    i.First (·.Allows l key log) e ∧ l.decode e log = .ok values := by
  have htried (e' : Event) : (l.decode e' log).toOption.map (e', ·) = some (e, values) ↔
      e' = e ∧ l.decode e log = .ok values := by
    rw [← toOption_decode_eq_some_iff, Option.map_eq_some_iff]
    constructor
    · rintro ⟨_, hvalues, heq⟩
      cases heq
      exact ⟨rfl, hvalues⟩
    · rintro ⟨rfl, hvalues⟩
      exact ⟨values, hvalues, rfl⟩
  rw [anonymous?, List.findSome?_eq_some_iff]
  constructor
  · rintro ⟨front, e', back, hfilter, hfound, hfront⟩
    obtain ⟨rfl, hdecode⟩ := (htried e').mp hfound
    obtain ⟨m, m', hevents, hm, hm'⟩ := List.filter_eq_append_iff.mp hfilter
    obtain ⟨k, k', rfl, hk, hnamed, -⟩ := List.filter_eq_cons_iff.mp hm'
    have hallows : e'.Allows l key log :=
      allows_iff.mpr ⟨hnamed, values, toOption_decode_eq_some_iff.mpr hdecode⟩
    refine ⟨⟨hallows, m ++ k, k', by simp [hevents], fun x hx hx' => ?_⟩, hdecode⟩
    obtain ⟨hxn, v, hv⟩ := allows_iff.mp hx'
    rcases List.mem_append.mp hx with hx | hx
    · -- it was tried before, in vain
      have hnone := hfront x (hm ▸ List.mem_filter.mpr ⟨hx, hxn⟩)
      rw [hv] at hnone
      cases hnone
    · exact hk x hx hxn
  · rintro ⟨⟨hallows, before, after, hevents, hbefore⟩, hdecode⟩
    obtain ⟨hnamed, -⟩ := allows_iff.mp hallows
    refine ⟨_, e, _, by rw [hevents, List.filter_append, List.filter_cons, if_pos hnamed],
      (htried e).mpr ⟨rfl, hdecode⟩, fun x hx => ?_⟩
    obtain ⟨hx, hxn⟩ := List.mem_filter.mp hx
    rw [Option.map_eq_none_iff]
    by_contra hread
    obtain ⟨v, hv⟩ := Option.ne_none_iff_exists'.mp hread
    exact hbefore x hx (allows_iff.mpr ⟨hxn, v, hv⟩)

/-- **Which event a log is of.** A log is found to be of an event just as `Finds` says. -/
theorem occurrence?_eq_some_iff :
    i.occurrence? l key log hash = .ok (some (e, values)) ↔ i.Finds l key log hash e values := by
  unfold occurrence?
  cases hdeclared : i.declared? hash with
  | some e' =>
    have hfirst := declared?_eq_some_iff.mp hdeclared
    have hsome : ¬ ∀ e ∈ i.events, ¬ e.Declares hash := fun h => not_declares_of_first h hfirst
    constructor
    · intro h
      by_cases hnamed : e'.named key = true
      · cases hdecode : l.decode e' log with
        | error fault => simp [hnamed, hdecode, Except.map] at h
        | ok v =>
          simp only [hnamed, hdecode, if_true, Except.map, Except.ok.injEq, Option.some.injEq,
            Prod.mk.injEq] at h
          obtain ⟨rfl, rfl⟩ := h
          exact .declared hfirst hnamed hdecode
      · simp [hnamed] at h
    · rintro (⟨hfirst', hnamed, hdecode⟩ | ⟨hnone, -⟩)
      · cases hdeclared.symm.trans (declared?_eq_some_iff.mpr hfirst')
        simp [hnamed, hdecode, Except.map]
      · exact absurd hnone hsome
  | none =>
    have hnone := declared?_eq_none_iff.mp hdeclared
    by_cases hhash : key.isHash = true
    · simp only [hhash, if_true, reduceCtorEq, false_iff]
      rintro (⟨hfirst, -⟩ | ⟨-, hhash', -⟩)
      · exact not_declares_of_first hnone hfirst
      · rw [hhash] at hhash'
        cases hhash'
    · simp only [hhash, Bool.false_eq_true, if_false, Except.ok.injEq, anonymous?_eq_some_iff]
      constructor
      · rintro ⟨hfirst, hdecode⟩
        exact .anonymous hnone (by simpa using hhash) hfirst hdecode
      · rintro (⟨hfirst, -⟩ | ⟨-, -, hfirst, hdecode⟩)
        · exact absurd hfirst (not_declares_of_first hnone)
        · exact ⟨hfirst, hdecode⟩

/-- A log is refused just as `Refuses` says. -/
theorem occurrence?_eq_error_iff :
    i.occurrence? l key log hash = .error fault ↔ i.Refuses l key log hash fault := by
  unfold occurrence?
  cases hdeclared : i.declared? hash with
  | some e' =>
    have hfirst := declared?_eq_some_iff.mp hdeclared
    have hsome : ¬ ∀ e ∈ i.events, ¬ e.Declares hash := fun h => not_declares_of_first h hfirst
    constructor
    · intro h
      by_cases hnamed : e'.named key = true
      · cases hdecode : l.decode e' log with
        | error f =>
          simp only [hnamed, hdecode, if_true, Except.map, Except.error.injEq] at h
          exact .undecodable hfirst hnamed (h ▸ hdecode)
        | ok v => simp [hnamed, hdecode, Except.map] at h
      · simp [hnamed] at h
    · rintro (⟨hfirst', hnamed, hdecode⟩ | ⟨hnone, -⟩)
      · cases hdeclared.symm.trans (declared?_eq_some_iff.mpr hfirst')
        simp [hnamed, hdecode, Except.map]
      · exact absurd hnone hsome
  | none =>
    have hnone := declared?_eq_none_iff.mp hdeclared
    by_cases hhash : key.isHash = true
    · simp only [hhash, if_true, Except.error.injEq]
      constructor
      · rintro rfl
        exact .undeclared hnone hhash
      · rintro (⟨hfirst, -⟩ | -)
        · exact absurd hfirst (not_declares_of_first hnone)
        · rfl
    · simp only [hhash, Bool.false_eq_true, if_false, reduceCtorEq, false_iff]
      rintro (⟨hfirst, -⟩ | ⟨-, hhash'⟩)
      · exact not_declares_of_first hnone hfirst
      · exact hhash hhash'

/-- A log can be read as one of the event that it is found to be of. -/
lemma Finds.decode_eq (h : i.Finds l key log hash e values) : l.decode e log = .ok values := by
  cases h with
  | declared _ _ hdecode | anonymous _ _ _ hdecode => exact hdecode

/-- It shows the hash of that event, if the event has one. -/
lemma Finds.selector_eq (h : i.Finds l key log hash e values) (ha : e.anonymous = false) :
    e.selector = hash := by
  cases h with
  | declared hfirst => exact hfirst.1.2
  | anonymous _ _ hfirst =>
    have hanonymous := hfirst.1.1
    rw [ha] at hanonymous
    cases hanonymous

/-- A log is found only under a key that its own hash is not against. -/
lemma Finds.names_hash (h : i.Finds l key log hash e values) :
    (key.isHash && !key.names hash.bytes "" "") = false := by
  rcases h with ⟨⟨⟨hanonymous, rfl⟩, -⟩, hnamed, -⟩ | ⟨-, hhash, -⟩
  · cases key with
    | hash b => simpa [Event.named, hanonymous, ItemKey.names, ItemKey.isHash] using hnamed
    | _ => rfl
  · rw [hhash, Bool.false_and]

end Interface

end AbiSpan
