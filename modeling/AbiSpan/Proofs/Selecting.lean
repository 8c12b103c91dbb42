import AbiSpan.CallScope
import AbiSpan.LogScope
import AbiSpan.Proofs.Picking

/-!
What a pick leaves selected.

Reading a log or call data walks over bytes, keeps what it has located and reports on its way, but
selects nothing. A pick selects the range that it has read after all that can fail, so a pick that
fails leaves the ranges selected so far as they are.
-/

namespace AbiSpan

namespace Picking

variable {Located : Type}

/-- An invariant that reading does not touch: neither what has been located nor what reading reports
makes a difference to it. -/
structure OutlastsReading (inv : PickState Located → Prop) : Prop where
  located : ∀ s l, inv s → inv { s with located := l }
  locate : ∀ b ts, Preserves (locate b ts) inv
  callLocated : ∀ signature count, Preserves (notify (.callLocated signature count)) inv

lemma outlastsReading_spans (spans : List Span) :
    OutlastsReading fun s : PickState Located => s.spans = spans where
  located _ _ h := h
  locate _ _ _ h := always_locate.mpr h
  callLocated _ _ _ h := always_notify.mpr h

/-- Selecting what has been read adds just that. -/
lemma always_select_appends {x : Picking Located Span}
    (h : ∀ spans, Preserves x fun s => s.spans = spans) (s : PickState Located) :
    Always (x >>= select) s fun r s' => s'.spans = s.spans ++ r.toOption.toList := by
  rw [always_bind]
  refine (h s.spans s rfl).mono fun r s' hspans => ?_
  cases r with
  | error fault => exact hspans.trans (List.append_nil _).symm
  | ok span => exact congrArg (· ++ [span]) hspans

end Picking

namespace LogScope

variable {s : LogScope} {inv : PickState Located → Prop}

lemma preserves_dataTree (h : Picking.OutlastsReading inv) (data : Node) :
    Preserves (s.dataTree data) inv := by
  refine preserves_get.bind fun state => ?_
  cases state.located with
  | some nodes => exact preserves_pure _
  | none =>
    cases data.slice? s.encoded with
    | none => exact preserves_throw _
    | some payload =>
      exact (preserves_ofExcept _).bind fun types => (h.locate _ types).bind fun nodes =>
        (preserves_modify fun state => h.located state (some nodes)).bind fun _ => preserves_pure _

lemma preserves_argument (h : Picking.OutlastsReading inv) (name : String) :
    Preserves (s.argument name) inv := by
  unfold argument
  cases s.event.place? name with
  | none => exact preserves_throw _
  | some place =>
    cases place with
    | topic i => exact preserves_ofExcept _
    | data i =>
      refine (preserves_ofExcept _).bind fun data =>
          (preserves_dataTree h data).bind fun nodes => ?_
      cases nodes[i]? with
      | none => exact preserves_throw _
      | some n => exact (preserves_ofExcept _).bind fun _ => preserves_pure _

lemma preserves_range (h : Picking.OutlastsReading inv)
    (hnotify : ∀ name span, Preserves (Picking.notify (.eventArgument name span)) inv)
    (part : LogPart) : Preserves (s.range part) inv := by
  cases part with
  | address => exact preserves_ofExcept _
  | signature => exact preserves_ite (preserves_throw _) (preserves_ofExcept _)
  | argument name =>
    exact (preserves_argument h name).bind fun span => (hnotify name span).bind fun _ =>
      preserves_pure _

/-- **A pick from a log selects what it comes to, and nothing if it fails.** -/
theorem appends_pick (s : LogScope) : Plan.Appends s.pick := fun part =>
  Picking.always_select_appends fun spans =>
    preserves_range (Picking.outlastsReading_spans spans)
      (fun _ _ _ h => Picking.always_notify.mpr h) part

end LogScope

namespace CallScope

variable {s : CallScope} {inv : PickState Located → Prop}

lemma preserves_tree (h : Picking.OutlastsReading inv) : Preserves s.tree inv := by
  refine preserves_get.bind fun state => ?_
  cases state.located.lookup s.function.selector with
  | some nodes => exact preserves_pure _
  | none =>
    exact (preserves_ofExcept _).bind fun payload => (preserves_ofExcept _).bind fun types =>
      (h.locate _ types).bind fun nodes => (h.callLocated _ _).bind fun _ =>
        (preserves_modify fun state => h.located state _).bind fun _ => preserves_pure _

lemma preserves_argument (h : Picking.OutlastsReading inv) (name : String) :
    Preserves (s.argument name) inv := by
  unfold argument
  cases s.function.inputs.findIdx? (·.name == name) with
  | none => exact preserves_throw _
  | some i =>
    refine (preserves_tree h).bind fun nodes => ?_
    cases nodes[i]? with
    | none => exact preserves_throw _
    | some n => exact (preserves_ofExcept _).bind fun _ => preserves_pure _

lemma preserves_range (h : Picking.OutlastsReading inv)
    (hnotify : ∀ name span, Preserves (Picking.notify (.callArgument name span)) inv)
    (part : CallPart) : Preserves (s.range part) inv := by
  cases part with
  | signature => exact preserves_ofExcept _
  | argument name =>
    exact (preserves_argument h name).bind fun span => (hnotify name span).bind fun _ =>
      preserves_pure _

/-- **A pick from call data selects what it comes to, and nothing if it fails.** -/
theorem appends_pick (s : CallScope) : Plan.Appends s.pick := fun part =>
  Picking.always_select_appends fun spans =>
    preserves_range (Picking.outlastsReading_spans spans)
      (fun _ _ _ h => Picking.always_notify.mpr h) part

end CallScope

end AbiSpan
