import AbiSpan.Record
import AbiSpan.Proofs.Layout.Kept
import AbiSpan.Proofs.Selecting

/-!
Walks and picks report nothing about interfaces.

What a session reports about the interfaces it looks up can be counted on only if nothing else
reports the same. Reading a buffer and picking parts write notices of their own, also where they
fail, and none of these is about an interface.
-/

namespace AbiSpan

/-- The notice is about the interface of a contract. -/
def Notice.onInterface : Notice → Bool
  | .interfaceCached _ | .interfaceFetched .. | .interfaceReady .. => true
  | _ => false

/-- No notice is about an interface. -/
def Quiet (ns : Array Notice) : Prop := ∀ n ∈ ns, n.onInterface = false

lemma Quiet.push {ns : Array Notice} (h : Quiet ns) {n : Notice} (hn : n.onInterface = false) :
    Quiet (ns.push n) := by
  intro m hm
  rcases Array.mem_push.mp hm with hm | rfl
  · exact h m hm
  · exact hn

lemma Quiet.append {ns ns' : Array Notice} (h : Quiet ns) (h' : Quiet ns') : Quiet (ns ++ ns') := by
  intro m hm
  rcases Array.mem_append.mp hm with hm | hm
  · exact h m hm
  · exact h' m hm

namespace Layout

open Reading

/-- Locating fields reports nothing about interfaces, also where it fails. -/
lemma quiet_locate (b : Buffer) (ts : List AbiType) : Quiet (locate b ts).2.notices := by
  have hpush : Withstands Quiet := ⟨fun _ _ _ h => h.push rfl, fun _ _ _ _ h => h.push rfl⟩
  have hrecord : Keeps Quiet (fun _ => True) (List.Forall₂ Eq) (record b ts) :=
    record_keeps hpush readsGood_true fun _ => trivial
  have hfields : Keeps Quiet (fun _ => True) (List.Forall₂ Eq) (fields b ts) :=
    hrecord.bind fun _ _ hns => keeps_get.bind fun _ _ _ =>
      (keeps_notify fun _ h => h.push rfl).bind fun _ _ _ => keeps_pure hns
  exact (hfields {} fun _ h => by simp at h).1

end Layout

/-- Opening a record reports nothing about interfaces. -/
lemma Record.quiet_ofEncoded {tx : Transaction} {receipt : Receipt} {encoded : Bytes}
    {settings : Settings} {library : Library} {r : Record} {notices : List Notice}
    (h : Record.ofEncoded tx receipt encoded settings library = .ok (r, notices)) :
    ∀ n ∈ notices, n.onInterface = false := by
  obtain ⟨tree, index, progress, hwalk, -, -, rfl⟩ := Record.ofEncoded_inv h
  have hquiet := Layout.quiet_locate { bytes := encoded, limits := settings.limits }
    (Schema.ofKind .v1 tx.kind).types
  rw [hwalk] at hquiet
  intro n hn
  rcases List.mem_append.mp hn with hn | hn
  · exact hquiet n (Array.mem_toList_iff.mp hn)
  · unfold openingNotices at hn
    split at hn
    · rw [List.nil_append, List.mem_singleton] at hn
      rw [hn]
      rfl
    · simp only [List.cons_append, List.nil_append, List.mem_cons, List.not_mem_nil,
        or_false] at hn
      rcases hn with rfl | rfl <;> rfl

/-! ### Picking -/

/-- Nothing has been reported about interfaces. -/
def PickState.Quiet {Located : Type} (s : PickState Located) : Prop := AbiSpan.Quiet s.notices

namespace Picking

variable {Located : Type}

lemma quiet_notify {n : Notice} (hn : n.onInterface = false) :
    Preserves (notify n : Picking Located Unit) PickState.Quiet :=
  preserves_modify fun _ h => h.push hn

lemma quiet_locate (b : Buffer) (ts : List AbiType) :
    Preserves (locate b ts : Picking Located (List Node)) PickState.Quiet := by
  intro s h
  rw [always_locate]
  exact h.append (Layout.quiet_locate b ts)

end Picking

lemma Picking.outlastsReading_quiet {Located : Type} :
    OutlastsReading (@PickState.Quiet Located) where
  located _ _ h := h
  locate := quiet_locate
  callLocated _ _ := quiet_notify rfl

lemma Picking.quiet_select {Located : Type} (span : Span) :
    Preserves (select span : Picking Located Span) PickState.Quiet := fun _ h => h

lemma LogScope.quiet_pick {s : LogScope} (part : LogPart) :
    Preserves (s.pick part) PickState.Quiet :=
  (preserves_range Picking.outlastsReading_quiet (fun _ _ => Picking.quiet_notify rfl) part).bind
    Picking.quiet_select

lemma CallScope.quiet_pick {s : CallScope} (part : CallPart) :
    Preserves (s.pick part) PickState.Quiet :=
  (preserves_range Picking.outlastsReading_quiet (fun _ _ => Picking.quiet_notify rfl) part).bind
    Picking.quiet_select

/-- Nor does a plan, whatever it picks. -/
lemma Plan.quiet_run {Part Located : Type} {pick : Part → Picking Located Span}
    (h : ∀ part, Preserves (pick part) PickState.Quiet) (plan : Plan Part) (located : Located) :
    AbiSpan.Quiet ((plan.run pick).run { located }).2.notices :=
  Plan.keeps_run h plan fun _ h => by simp at h

end AbiSpan
