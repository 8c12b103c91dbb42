import AbiSpan.Session
import AbiSpan.Proofs.Outcome
import Mathlib.Tactic

/-!
What looking up an interface does to a session.

A session that has been asked for interfaces `LooksUp` to a later one: its record, its source, the
ranges and the call trees are the same, it may remember more interfaces, and its journal has
grown, but no plan has been run. What a session remembers under a key is never lost or replaced,
since an entry is added only where there is none.
-/

namespace AbiSpan

lemma mem_of_lookup {κ β : Type} [BEq κ] [LawfulBEq κ] {l : List (κ × β)} {k : κ} {v : β}
    (h : l.lookup k = some v) : (k, v) ∈ l := by
  obtain ⟨front, back, rfl, -⟩ := List.lookup_eq_some_iff.mp h
  exact List.mem_append_right _ List.mem_cons_self

/-- Entries have been added in front, and every key that had one has the same still. -/
structure Gains {κ β : Type} [BEq κ] (old new : List (κ × β)) : Prop where
  suffix : old <:+ new
  lookup : ∀ k v, old.lookup k = some v → new.lookup k = some v

namespace Gains

variable {κ β : Type} [BEq κ] {old new newer : List (κ × β)}

lemma refl (old : List (κ × β)) : Gains old old := ⟨List.suffix_rfl, fun _ _ => id⟩

lemma trans (h : Gains old new) (h' : Gains new newer) : Gains old newer :=
  ⟨h.suffix.trans h'.suffix, fun k v hk => h'.lookup k v (h.lookup k v hk)⟩

/-- A new entry hides none if its key had none. -/
lemma cons [LawfulBEq κ] {k : κ} (h : old.lookup k = none) (v : β) : Gains old ((k, v) :: old) := by
  refine ⟨List.suffix_cons _ _, fun k' v' hk' => ?_⟩
  have hne : (k' == k) = false := by
    rw [beq_eq_false_iff_ne]
    rintro rfl
    rw [h] at hk'
    cases hk'
  simp [List.lookup_cons, hne, hk']

end Gains

/-- Running a plan is a deed of its own. -/
def Deed.isPick : Deed → Bool
  | .pickedLog .. | .pickedCall .. => true
  | _ => false

namespace Session

/-- How a lookup of an interface, begun in `s`, can end, and in which session. -/
inductive Lookup (s : Session) (a : Address) : Except QueryFault Interface → Session → Prop
  | noSource : s.source = none → Lookup s a (.error .noSource) s
  | cached {i : Interface} : s.source ≠ none → s.interfaces.lookup a = some i →
    Lookup s a (.ok i) { s with
      journal := (s.journal.push (.noted (.interfaceCached a))).push (.noted (.interfaceReady a
        s.interfaces.length)) }
  | failed {source : Source} {fault : LookupFault} : s.source = some source →
    s.interfaces.lookup a = none → source.answer s.journal.asked a = .error fault →
    Lookup s a (.error (.lookup fault)) { s with journal := s.journal.push (.asked a) }
  | garbled {source : Source} {text : String} : s.source = some source →
    s.interfaces.lookup a = none → source.answer s.journal.asked a = .ok text →
    s.record.library.interface? text = none →
    Lookup s a (.error (.badInterface a.checksummed "not the interface of a contract"))
      { s with journal := s.journal.push (.asked a) }
  | fetched {source : Source} {text : String} {i : Interface} : s.source = some source →
    s.interfaces.lookup a = none → source.answer s.journal.asked a = .ok text →
    s.record.library.interface? text = some i →
    Lookup s a (.ok i) { s with
      interfaces := (a, i) :: s.interfaces
      journal := ((s.journal.push (.asked a)).push (.noted (.interfaceFetched a
        i.events.length i.functions.length))).push (.noted (.interfaceReady a
        (s.interfaces.length + 1))) }

/-- The session `s'` is `s` but for interfaces that it has learnt and what it has written down. -/
structure Stays (s s' : Session) : Prop where
  record_eq : s'.record = s.record
  source_eq : s'.source = s.source
  spans_eq : s'.spans = s.spans
  callTrees_eq : s'.callTrees = s.callTrees
  interfaces : Gains s.interfaces s'.interfaces

/-- The session `s'` is `s` after it may have looked up interfaces; it has run no plan. -/
structure LooksUp (s s' : Session) : Prop extends s.Stays s' where
  journal_eq : ∃ deeds, s'.journal.toList = s.journal.toList ++ deeds ∧
    ∀ d ∈ deeds, d.isPick = false

variable {s s' s'' : Session}

lemma Stays.refl (s : Session) : s.Stays s := ⟨rfl, rfl, rfl, rfl, .refl _⟩

lemma Stays.trans (h : s.Stays s') (h' : s'.Stays s'') : s.Stays s'' :=
  ⟨h'.record_eq.trans h.record_eq, h'.source_eq.trans h.source_eq, h'.spans_eq.trans h.spans_eq,
    h'.callTrees_eq.trans h.callTrees_eq, h.interfaces.trans h'.interfaces⟩

lemma Stays.write (h : s.Stays s') (d : Deed) :
    s.Stays { s' with journal := s'.journal.push d } :=
  ⟨h.record_eq, h.source_eq, h.spans_eq, h.callTrees_eq, h.interfaces⟩

namespace LooksUp

lemma refl (s : Session) : s.LooksUp s := ⟨.refl s, [], by simp, by simp⟩

lemma trans (h : s.LooksUp s') (h' : s'.LooksUp s'') : s.LooksUp s'' := by
  obtain ⟨hstays, deeds, hj, hd⟩ := h
  obtain ⟨hstays', deeds', hj', hd'⟩ := h'
  refine ⟨hstays.trans hstays', deeds ++ deeds', by simp [hj', hj], fun d hmem => ?_⟩
  rcases List.mem_append.mp hmem with hmem | hmem
  · exact hd d hmem
  · exact hd' d hmem

/-- Writing down anything but a plan that was run. -/
lemma write (h : s.LooksUp s') {d : Deed} (hd : d.isPick = false) :
    s.LooksUp { s' with journal := s'.journal.push d } := by
  obtain ⟨deeds, hj, hdeeds⟩ := h.journal_eq
  refine ⟨h.toStays.write d, deeds ++ [d], by simp [hj], fun d' hmem => ?_⟩
  rcases List.mem_append.mp hmem with hmem | hmem
  · exact hdeeds d' hmem
  · rw [List.mem_singleton.mp hmem, hd]

/-- Remembering an interface of which none was remembered. -/
lemma remember (h : s.LooksUp s') {a : Address} (ha : s'.interfaces.lookup a = none)
    (i : Interface) : s.LooksUp { s' with interfaces := (a, i) :: s'.interfaces } where
  record_eq := h.record_eq
  source_eq := h.source_eq
  spans_eq := h.spans_eq
  callTrees_eq := h.callTrees_eq
  interfaces := h.interfaces.trans (.cons ha i)
  journal_eq := h.journal_eq

end LooksUp

/-- Notices are no plans. -/
lemma looksUp_noted (s : Session) (ns : Array Notice) :
    s.LooksUp { s with journal := s.journal ++ ns.map Deed.noted } := by
  refine ⟨⟨rfl, rfl, rfl, rfl, .refl _⟩, ns.toList.map .noted, by simp, fun d hd => ?_⟩
  obtain ⟨n, -, rfl⟩ := List.mem_map.mp hd
  rfl

end Session

namespace Query

variable {s : Session}

lemma always_record {post : Except QueryFault Record → Session → Prop} :
    Always record s post ↔ post (.ok s.record) s := Iff.rfl

lemma always_write {d : Deed} {post : Except QueryFault Unit → Session → Prop} :
    Always (write d) s post ↔ post (.ok ()) { s with journal := s.journal.push d } := Iff.rfl

lemma always_notify {n : Notice} {post : Except QueryFault Unit → Session → Prop} :
    Always (notify n) s post ↔ post (.ok ()) { s with journal := s.journal.push (.noted n) } :=
  Iff.rfl

lemma always_gather {spans : List Span} {post : Except QueryFault Unit → Session → Prop} :
    Always (gather spans) s post ↔ post (.ok ()) { s with spans := s.spans ++ spans } := Iff.rfl

/-- Notices are written down in order, and nothing else happens. -/
lemma always_forM_notify {ns : Array Notice} {post : Except QueryFault Unit → Session → Prop} :
    Always (ns.forM notify) s post ↔
      post (.ok ()) { s with journal := s.journal ++ ns.map Deed.noted } := by
  obtain ⟨ns⟩ := ns
  rw [Array.forM_eq_forM, List.forM_toArray, List.forM_eq_forM]
  induction ns generalizing s with
  | nil => simp
  | cons n ns ih =>
    rw [List.forM_cons, always_bind, always_notify]
    refine ih.trans (iff_of_eq (congrArg (post _) ?_))
    simp

/-- A lookup ends in one of these ways. -/
lemma lookup_interfaceOf (a : Address) : Always (interfaceOf a) s (s.Lookup a) := by
  simp only [interfaceOf, fetch, always_bind, always_get]
  cases hsource : s.source with
  | none => exact .noSource hsource
  | some source =>
    simp only [always_bind, always_get]
    cases hcached : s.interfaces.lookup a with
    | some i =>
      simp only [always_bind, always_notify, always_pure, always_get]
      exact .cached (by simp [hsource]) hcached
    | none =>
      simp only [always_bind, always_record, always_get, always_write]
      cases hanswer : source.answer s.journal.asked a with
      | error fault => exact .failed hsource hcached hanswer
      | ok text =>
        cases hi : s.record.library.interface? text with
        | none =>
          simp only [hi, always_throw]
          exact .garbled hsource hcached hanswer hi
        | some i =>
          simp only [hi, always_bind, always_notify, always_modify, always_pure]
          exact .fetched hsource hcached hanswer hi

/-- Whatever interface a session gives for a contract, it remembers. -/
lemma looksUp_interfaceOf (a : Address) : Always (interfaceOf a) s fun r s' =>
    s.LooksUp s' ∧ ∀ i, r = .ok i → s'.interfaces.lookup a = some i := by
  refine (lookup_interfaceOf a).mono fun r s' hlookup => ?_
  have hasked := (Session.LooksUp.refl s).write (d := .asked a) rfl
  cases hlookup with
  | noSource _ => exact ⟨.refl s, fun _ h => by cases h⟩
  | cached _ hi =>
    refine ⟨((Session.LooksUp.refl s).write rfl).write rfl, ?_⟩
    rintro _ ⟨⟩
    exact hi
  | failed _ _ _ => exact ⟨hasked, fun _ h => by cases h⟩
  | garbled _ _ _ _ => exact ⟨hasked, fun _ h => by cases h⟩
  | fetched _ hnone _ _ =>
    refine ⟨((hasked.write rfl).remember hnone _).write rfl, ?_⟩
    rintro _ ⟨⟩
    simp

end Query

end AbiSpan
