import AbiSpan.Proofs.Selecting

/-!
Picks of one log do not influence each other.

The only thing that one pick leaves to the next is where the arguments in the data lie, and that is
left only by a walk that has found them. So whatever has been picked before, and whether it failed
or not, each pick comes to what it comes to when it is the first, faults included. What a row of
picks adds is then made up of what each adds by itself.
-/

namespace AbiSpan

/-- Picks the parts in order, whether or not any of them fails. -/
def Plan.each {Part : Type} (parts : List Part) : Plan Part := inOrder (parts.map (·, true))

lemma Plan.each_cons {Part : Type} (part : Part) (parts : List Part) :
    each (part :: parts) = .pick part fun _ => each parts := by
  simp only [each, List.map_cons, inOrder]
  congr
  funext outcome
  cases outcome <;> rfl

namespace LogScope

variable {s : LogScope} {state : PickState Located}

/-- What picking a part comes to when nothing has been picked before. -/
def fresh (s : LogScope) (part : LogPart) : Except QueryFault Span :=
  (outcome (s.pick part) { located := none }).1

/-- How the steps of a plan go, begun afresh, and the state they leave. -/
def steps (s : LogScope) (plan : Plan LogPart) : Picked × PickState Located :=
  (plan.run s.pick).run { located := none }

/-- The picks of a log are independent of each other. -/
structure Independent (s : LogScope) : Prop where
  /-- After any steps, failed ones included, a pick comes to what it comes to afresh. -/
  after : ∀ plan part, (outcome (s.pick part) (s.steps plan).2).1 = s.fresh part
  /-- So does every step of a plan, whatever the plan makes of the steps before. -/
  outcomes : ∀ plan, (s.steps plan).1.outcomes =
    (plan.asked (s.steps plan).1.outcomes).map s.fresh
  /-- A row of steps that may all fail ends with what each of them comes to afresh. -/
  each : ∀ parts, (s.steps (.each parts)).1 = { outcomes := parts.map s.fresh, verdict := .ok () }
  /-- Any steps add the ranges that they come to, in order, the failed ones none. -/
  selected : ∀ plan, (s.steps plan).2.spans = (s.steps plan).1.spans
  /-- Steps in another order add the same ranges in another order. -/
  perm : ∀ parts parts', parts.Perm parts' →
    (s.steps (.each parts)).2.spans.Perm (s.steps (.each parts')).2.spans
  /-- Further steps, repeated ones included, add what they add by themselves. -/
  append : ∀ parts more, (s.steps (.each (parts ++ more))).2.spans =
    (s.steps (.each parts)).2.spans ++ (s.steps (.each more)).2.spans

/-! ### What each pick comes to -/

/-- What walking over the data comes to, if it has not been located. -/
def walked (s : LogScope) (data : Node) : Except QueryFault (List Node) :=
  match data.slice? s.encoded with
  | none => .error (.missingNode "log data")
  | some payload => do
    let types ← Param.rowTypes s.event.bodyInputs
    (Layout.locate { bytes := payload, limits := s.limits } types).1.mapError .reading

/-- What has been located is what the walk finds. -/
def Kept (s : LogScope) (state : PickState Located) : Prop :=
  ∀ data nodes, s.data = .ok data → state.located = some nodes → s.walked data = .ok nodes

lemma kept_none (h : state.located = none) : s.Kept state := by
  intro data nodes _ hnodes
  rw [h] at hnodes
  cases hnodes

/-- The tree is the walk's, wherever it is taken from, and only a tree that was found is kept. -/
lemma always_dataTree_walked {data : Node} (hdata : s.data = .ok data) (h : s.Kept state) :
    Always (s.dataTree data) state fun r state' => s.Kept state' ∧ r = s.walked data := by
  simp only [dataTree, always_bind, always_get]
  cases hl : state.located with
  | some nodes =>
    simp only [always_pure]
    exact ⟨h, (h data nodes hdata hl).symm⟩
  | none =>
    cases hslice : data.slice? s.encoded with
    | none =>
      simp only [always_throw]
      exact ⟨h, by rw [walked, hslice]⟩
    | some payload =>
      simp only [always_bind, always_ofExcept]
      cases htypes : Param.rowTypes s.event.bodyInputs with
      | error fault => exact ⟨h, by simp [walked, hslice, htypes, bind, Except.bind]⟩
      | ok types =>
        have hwalked : s.walked data = (Layout.locate { bytes := payload, limits := s.limits }
            types).1.mapError .reading := by simp [walked, hslice, htypes, bind, Except.bind]
        simp only [Picking.always_locate]
        cases hloc : (Layout.locate { bytes := payload, limits := s.limits } types).1 with
        | error fault =>
          rw [hloc] at hwalked
          exact ⟨kept_none hl, hwalked.symm⟩
        | ok nodes =>
          rw [hloc] at hwalked
          refine ⟨fun data' nodes' hdata' hnodes' => ?_, hwalked.symm⟩
          cases hdata.symm.trans hdata'
          cases hnodes'
          exact hwalked

/-- What picking an argument in the data comes to, from what the walk comes to. -/
def dataArgumentIn (s : LogScope) (i : Nat) : Except QueryFault Span := do
  let data ← s.data
  let nodes ← s.walked data
  match nodes[i]? with
  | some n => return (← n.span).shift data.offset
  | none => throw (.countMismatch (i + 1) nodes.length)

lemma always_dataArgument_walked (i : ℕ) (h : s.Kept state) :
    Always (s.dataArgument i) state fun r state' => s.Kept state' ∧ r = s.dataArgumentIn i := by
  simp only [dataArgument, always_bind, always_ofExcept, dataArgumentIn]
  cases hdata : s.data with
  | error fault => exact ⟨h, rfl⟩
  | ok data =>
    refine (always_dataTree_walked hdata h).mono fun r state' hpost => ?_
    obtain ⟨hkept, rfl⟩ := hpost
    cases hwalked : s.walked data with
    | error fault => exact ⟨hkept, by simp [bind, Except.bind, hwalked]⟩
    | ok nodes =>
      cases hn : nodes[i]? with
      | none =>
        simp only [hn, always_throw]
        refine ⟨hkept, ?_⟩
        simp [bind, Except.bind, hwalked, hn, throw, throwThe, MonadExceptOf.throw]
      | some n =>
        simp only [hn, always_bind, always_ofExcept, always_pure]
        cases hspan : n.span with
        | error fault => exact ⟨hkept, by simp [bind, Except.bind, hwalked, hn, hspan]⟩
        | ok span =>
          exact ⟨hkept, by simp [bind, Except.bind, hwalked, hn, hspan, pure, Except.pure]⟩

/-- What picking an argument comes to, from what the walk comes to. -/
def argumentIn (s : LogScope) (name : String) : Except QueryFault Span :=
  match s.event.place? name with
  | none => .error (.unknownArgument name ("event " ++ s.event.signature))
  | some (.topic i) => s.topic i >>= Node.span
  | some (.data i) => s.dataArgumentIn i

lemma always_argument_walked (name : String) (h : s.Kept state) :
    Always (s.argument name) state fun r state' => s.Kept state' ∧ r = s.argumentIn name := by
  unfold argument argumentIn
  cases s.event.place? name with
  | none => exact ⟨h, rfl⟩
  | some place =>
    cases place with
    | topic i =>
      simp only [always_ofExcept]
      exact ⟨h, trivial⟩
    | data i => exact always_dataArgument_walked i h

/-- What picking a part comes to, from what the walk comes to. -/
def picked (s : LogScope) : LogPart → Except QueryFault Span
  | .address => s.emitter >>= Node.span
  | .signature =>
    if s.event.anonymous then
      .error (.unsupported ("signature topic of anonymous event " ++ s.event.name)
        "anonymous events do not emit their signature hash")
    else s.topic 0 >>= Node.span
  | .argument name => s.argumentIn name

lemma always_range_picked (part : LogPart) (h : s.Kept state) :
    Always (s.range part) state fun r state' => s.Kept state' ∧ r = s.picked part := by
  cases part with
  | address =>
    simp only [range, picked, always_ofExcept]
    exact ⟨h, trivial⟩
  | signature =>
    cases ha : s.event.anonymous with
    | true =>
      simp only [range, picked, ha, if_true, always_throw]
      exact ⟨h, trivial⟩
    | false =>
      simp only [range, picked, ha, Bool.false_eq_true, if_false, always_ofExcept]
      exact ⟨h, trivial⟩
  | argument name =>
    simp only [range, picked, always_bind]
    refine (always_argument_walked name h).mono fun r state' hpost => ?_
    obtain ⟨hkept, rfl⟩ := hpost
    cases s.argumentIn name with
    | error fault => exact ⟨hkept, rfl⟩
    | ok span =>
      simp only [Picking.always_notify, always_pure]
      exact ⟨hkept, trivial⟩

/-- Each pick comes to what it comes to by itself, and keeps what has been located true. -/
lemma always_pick_picked (part : LogPart) (h : s.Kept state) :
    Always (s.pick part) state fun r state' => s.Kept state' ∧ r = s.picked part :=
  Picking.always_bind_select ((always_range_picked part h).mono fun _ _ hpost _ => hpost)

/-- Wherever what has been located is true, a pick comes to what it comes to afresh. -/
lemma always_pick_fresh (part : LogPart) (h : s.Kept state) :
    Always (s.pick part) state fun r state' => s.Kept state' ∧ r = s.fresh part := by
  have hfresh : s.fresh part = s.picked part := (always_pick_picked part (kept_none rfl)).2
  rw [hfresh]
  exact always_pick_picked part h

/-! ### Whole plans -/

lemma kept_steps (s : LogScope) (plan : Plan LogPart) : s.Kept (s.steps plan).2 :=
  Plan.keeps_run (fun part _ h => (always_pick_fresh part h).mono fun _ _ hpost => hpost.1) plan
    (kept_none rfl)

lemma run_each (parts : List LogPart) (h : s.Kept state) :
    (((Plan.each parts).run s.pick).run state).1 =
      { outcomes := parts.map s.fresh, verdict := .ok () } := by
  induction parts generalizing state with
  | nil => rfl
  | cons part parts ih =>
    obtain ⟨hkept, hfresh⟩ := always_pick_fresh part h
    rw [Plan.each_cons, Plan.run_pick]
    simp only [ih hkept, hfresh, List.map_cons]

lemma selected_steps (s : LogScope) (plan : Plan LogPart) :
    (s.steps plan).2.spans = (s.steps plan).1.spans :=
  s.appends_pick.spans_run plan { located := none }

lemma spans_each (s : LogScope) (parts : List LogPart) :
    (s.steps (.each parts)).2.spans = parts.filterMap fun part => (s.fresh part).toOption := by
  rw [selected_steps, steps, run_each parts (kept_none rfl), Picked.spans, List.filterMap_map]
  rfl

lemma outcomes_steps (s : LogScope) (plan : Plan LogPart) :
    (s.steps plan).1.outcomes = (plan.asked (s.steps plan).1.outcomes).map s.fresh := by
  have hall : List.Forall₂ (fun part r => s.fresh part = r)
      (plan.asked (s.steps plan).1.outcomes) (s.steps plan).1.outcomes :=
    Plan.forall₂_asked_run (fun part _ h => (always_pick_fresh part h).mono fun _ _ hpost =>
      ⟨hpost.1, hpost.2.symm⟩) plan (kept_none rfl)
  rw [← List.forall₂_map_left_iff, List.forall₂_eq_eq_eq] at hall
  exact hall.symm

/-- **Each step by itself.** In every scope of a log, whatever its node, its record and its event, a
step ends the same after any other steps as it does when it is the first. -/
theorem picks_independent (s : LogScope) : s.Independent where
  after plan part := (always_pick_fresh part (kept_steps s plan)).2
  outcomes := outcomes_steps s
  each parts := run_each parts (kept_none rfl)
  selected := selected_steps s
  perm parts parts' h := by
    rw [spans_each, spans_each]
    exact h.filterMap _
  append parts more := by
    rw [spans_each, spans_each, spans_each, List.filterMap_append]

end LogScope

end AbiSpan
