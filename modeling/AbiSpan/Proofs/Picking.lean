import AbiSpan.Interface
import AbiSpan.Plan
import AbiSpan.Proofs.Layout.Faithful

/-!
What holds of every pick of a plan.

A plan asks for one part after another, and which it asks for depends on how the picks before
went. If each pick meets a specification and keeps an invariant of the trees located so far, then
all the picks of any plan meet it. Picks that `Append` put the range that they come to behind those
selected so far, and leave the list as it is where they fail; of such picks `Gathers` runs a plan
step by step.
-/

namespace AbiSpan

/-- The ranges of the picks that succeeded, in order. -/
def Picked.spans (p : Picked) : List Span := p.outcomes.filterMap (·.toOption)

namespace Plan

variable {Part Located : Type}

/-- The parts that a plan asks for, when its picks end so. -/
def asked : Plan Part → List (Except QueryFault Span) → List Part
  | .pick part next, outcome :: outcomes => part :: (next outcome).asked outcomes
  | _, _ => []

/-- Every pick of a plan meets the specification that each pick meets by itself. -/
lemma forall₂_asked_run {inv : PickState Located → Prop}
    {spec : Part → Except QueryFault Span → Prop} {pick : Part → Picking Located Span}
    (h : ∀ part s, inv s → Always (pick part) s fun r s' => inv s' ∧ spec part r)
    (plan : Plan Part) {s : PickState Located} (hs : inv s) :
    List.Forall₂ spec (plan.asked ((plan.run pick).run s).1.outcomes)
      ((plan.run pick).run s).1.outcomes := by
  induction plan generalizing s with
  | done => exact .nil
  | giveUp fault => exact .nil
  | pick part next ih =>
    have hpick := h part s hs
    unfold Always at hpick
    exact .cons hpick.2 (ih _ hpick.1)

/-- What each pick keeps, a plan keeps. -/
lemma keeps_run {inv : PickState Located → Prop} {pick : Part → Picking Located Span}
    (h : ∀ part s, inv s → Always (pick part) s fun _ s' => inv s') (plan : Plan Part)
    {s : PickState Located} (hs : inv s) : inv ((plan.run pick).run s).2 := by
  induction plan generalizing s with
  | done => exact hs
  | giveUp fault => exact hs
  | pick part next ih => exact ih _ (h part s hs)

lemma run_pick (pick : Part → Picking Located Span) (part : Part)
    (next : Except QueryFault Span → Plan Part) (s : PickState Located) :
    ((Plan.pick part next).run pick).run s =
      let step := outcome (pick part) s
      let rest := ((next step.1).run pick).run step.2
      ({ rest.1 with outcomes := step.1 :: rest.1.outcomes }, rest.2) := rfl

/-- A plan goes the same from any two states of an invariant in which picks come to values that
only depend on the part. -/
lemma run_fst_eq {inv : PickState Located → Prop} {val : Part → Except QueryFault Span}
    {pick : Part → Picking Located Span}
    (h : ∀ part s, inv s → Always (pick part) s fun r s' => inv s' ∧ r = val part)
    (plan : Plan Part) {s s' : PickState Located} (hs : inv s) (hs' : inv s') :
    ((plan.run pick).run s).1 = ((plan.run pick).run s').1 := by
  induction plan generalizing s s' with
  | done => rfl
  | giveUp fault => rfl
  | pick part next ih =>
    obtain ⟨hinv, hval⟩ := h part s hs
    obtain ⟨hinv', hval'⟩ := h part s' hs'
    have hrest := ih (val part) hinv hinv'
    rw [run_pick, run_pick]
    simp only [hval, hval', hrest]

/-! ### Step by step -/

/-- Each pick puts the range that it comes to behind those selected so far, and selects nothing
where it fails. -/
def Appends (pick : Part → Picking Located Span) : Prop :=
  ∀ part s, Always (pick part) s fun r s' => s'.spans = s.spans ++ r.toOption.toList

/-- A plan leaves those ranges selected that its picks have come to. -/
lemma Appends.spans_run {pick : Part → Picking Located Span} (h : Appends pick) (plan : Plan Part)
    (s : PickState Located) :
    ((plan.run pick).run s).2.spans = s.spans ++ ((plan.run pick).run s).1.spans := by
  induction plan generalizing s with
  | done => exact (List.append_nil _).symm
  | giveUp fault => exact (List.append_nil _).symm
  | pick part next ih =>
    have hstep := h part s
    unfold Always at hstep
    rw [run_pick]
    simp only [ih, hstep, List.append_assoc]
    cases (outcome (pick part) s).1 <;> simp [Picked.spans, Except.toOption]

/-- A plan run from a state and a list of ranges, each with the part that it is for: how it ends,
and the state and the list it leaves. What is selected grows with the list. -/
inductive Gathers (pick : Part → Picking Located Span) :
    Plan Part → PickState Located → List (Part × Span) →
      Except QueryFault Unit → PickState Located → List (Part × Span) → Prop
  | done {s : PickState Located} {spans : List (Part × Span)} :
    Gathers pick .done s spans (.ok ()) s spans
  | giveUp {s : PickState Located} {spans : List (Part × Span)} {fault : QueryFault} :
    Gathers pick (.giveUp fault) s spans (.error fault) s spans
  | picked {part : Part} {next : Except QueryFault Span → Plan Part} {span : Span}
    {s s1 s2 : PickState Located} {spans spans' : List (Part × Span)}
    {verdict : Except QueryFault Unit} : outcome (pick part) s = (.ok span, s1) →
      s1.spans = s.spans ++ [span] →
      Gathers pick (next (.ok span)) s1 (spans ++ [(part, span)]) verdict s2 spans' →
      Gathers pick (.pick part next) s spans verdict s2 spans'
  | failed {part : Part} {next : Except QueryFault Span → Plan Part} {fault : QueryFault}
    {s s1 s2 : PickState Located} {spans spans' : List (Part × Span)}
    {verdict : Except QueryFault Unit} : outcome (pick part) s = (.error fault, s1) →
      s1.spans = s.spans →
      Gathers pick (next (.error fault)) s1 spans verdict s2 spans' →
      Gathers pick (.pick part next) s spans verdict s2 spans'

/-- A run of a plan gathers the ranges of its successful picks, in order. -/
lemma exists_gathers {pick : Part → Picking Located Span} (happends : Appends pick)
    (plan : Plan Part) (s : PickState Located) (spans : List (Part × Span)) : ∃ more,
      Gathers pick plan s spans ((plan.run pick).run s).1.verdict ((plan.run pick).run s).2
        (spans ++ more) ∧
      more.map (·.2) = ((plan.run pick).run s).1.spans := by
  induction plan generalizing s spans with
  | done => exact ⟨[], by rw [List.append_nil]; exact .done, rfl⟩
  | giveUp fault => exact ⟨[], by rw [List.append_nil]; exact .giveUp, rfl⟩
  | pick part next ih =>
    have hstep := happends part s
    unfold Always at hstep
    rcases hpick : outcome (pick part) s with ⟨fault | span, s1⟩
    · obtain ⟨more, hrest, hspans⟩ := ih (.error fault) s1 spans
      rw [hpick] at hstep
      rw [run_pick, hpick]
      exact ⟨more, .failed hpick (hstep.trans (List.append_nil _)) hrest, hspans⟩
    · obtain ⟨more, hrest, hspans⟩ := ih (.ok span) s1 (spans ++ [(part, span)])
      rw [hpick] at hstep
      rw [run_pick, hpick]
      refine ⟨(part, span) :: more, .picked hpick hstep ?_, ?_⟩
      · rwa [List.append_assoc] at hrest
      · rw [List.map_cons, hspans]
        rfl

/-- Step by step, a plan gathers just the ranges that its successful picks come to, and these are
what it adds to those selected. -/
def RunsStepwise (plan : Plan Part) (pick : Part → Picking Located Span)
    (s : PickState Located) : Prop :=
  ∃ gathered, Gathers pick plan s [] ((plan.run pick).run s).1.verdict ((plan.run pick).run s).2
      gathered ∧
    gathered.map (·.2) = ((plan.run pick).run s).1.spans ∧
    ((plan.run pick).run s).2.spans = s.spans ++ gathered.map (·.2)

lemma Appends.runsStepwise {pick : Part → Picking Located Span} (h : Appends pick)
    (plan : Plan Part) (s : PickState Located) : plan.RunsStepwise pick s := by
  obtain ⟨gathered, hgathers, hspans⟩ := exists_gathers h plan s []
  exact ⟨gathered, hgathers, hspans, hspans ▸ h.spans_run plan s⟩

/-- If every pick meets a specification, so does whatever is gathered. -/
lemma Gathers.forall_mem {inv : PickState Located → Prop}
    {spec : Part → Except QueryFault Span → Prop} {pick : Part → Picking Located Span}
    (hpick : ∀ part s, inv s → Always (pick part) s fun r s' => inv s' ∧ spec part r)
    {plan : Plan Part} {s s' : PickState Located} {spans spans' : List (Part × Span)}
    {verdict : Except QueryFault Unit} (h : Gathers pick plan s spans verdict s' spans')
    (hs : inv s) (hspans : ∀ e ∈ spans, spec e.1 (.ok e.2)) :
    ∀ e ∈ spans', spec e.1 (.ok e.2) := by
  induction h with
  | done => exact hspans
  | giveUp => exact hspans
  | @picked part next span s s1 s2 spans spans' verdict hout _ hrest ih =>
    have hstep := hpick part s hs
    unfold Always at hstep
    rw [hout] at hstep
    refine ih hstep.1 fun e he => ?_
    rcases List.mem_append.mp he with he | he
    · exact hspans e he
    · rw [List.mem_singleton.mp he]
      exact hstep.2
  | @failed part next fault s s1 s2 spans spans' verdict hout _ hrest ih =>
    have hstep := hpick part s hs
    unfold Always at hstep
    rw [hout] at hstep
    exact ih hstep.1 hspans

end Plan

namespace Picking

variable {Located : Type} {s : PickState Located}

lemma always_notify {n : Notice} {post : Except QueryFault Unit → PickState Located → Prop} :
    Always (notify n) s post ↔ post (.ok ()) { s with notices := s.notices.push n } :=
  always_modify

/-- What does not depend on the ranges selected holds of selecting a range if it holds of finding
it. -/
lemma always_bind_select {x : Picking Located Span}
    {post : Except QueryFault Span → PickState Located → Prop}
    (h : Always x s fun r s' => ∀ spans, post r { s' with spans := spans }) :
    Always (x >>= select) s post := by
  rw [always_bind]
  refine h.mono fun r s' hpost => ?_
  cases r with
  | error fault => exact hpost s'.spans
  | ok span => exact hpost (s'.spans ++ [span])

lemma always_locate {b : Buffer} {types : List AbiType}
    {post : Except QueryFault (List Node) → PickState Located → Prop} :
    Always (locate b types) s post ↔
      post ((Layout.locate b types).1.mapError .reading)
        { s with notices := s.notices ++ (Layout.locate b types).2.notices } := by
  unfold locate
  rcases Layout.locate b types with ⟨_ | nodes, progress⟩ <;> rfl

end Picking

/-! ### Rows of inputs -/

namespace Param

/-- Where the walk over the data finds a row of inputs. -/
def RowTree (ps : List Param) (limits : Limits) (data : Bytes) (nodes : List Node) : Prop :=
  ∃ types, rowTypes ps = .ok types ∧ (Layout.locate { bytes := data, limits } types).1 = .ok nodes

namespace RowTree

variable {ps : List Param} {limits : Limits} {data : Bytes} {nodes nodes' : List Node}

lemma unique (h : RowTree ps limits data nodes) (h' : RowTree ps limits data nodes') :
    nodes = nodes' := by
  obtain ⟨types, htypes, hok⟩ := h
  obtain ⟨types', htypes', hok'⟩ := h'
  rw [htypes] at htypes'
  cases htypes'
  rw [hok] at hok'
  cases hok'
  rfl

/-- A node of the row with a size lies in the data. -/
lemma slice? (h : RowTree ps limits data nodes) {i size : ℕ} {m : Node} (hm : nodes[i]? = some m)
    (hsize : m.size = some size) :
    m.offset + size ≤ data.length ∧ m.slice? data = data.slice? m.offset size := by
  obtain ⟨types, -, hok⟩ := h
  exact Layout.locate_slice? hok hm hsize

end RowTree

end Param

end AbiSpan
