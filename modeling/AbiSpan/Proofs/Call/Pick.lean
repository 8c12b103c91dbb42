import AbiSpan.CallScope
import AbiSpan.Proofs.Bytes
import AbiSpan.Proofs.Selecting

/-!
What picking from call data comes to.

Where the arguments lie is taken from what is kept under the selector, and found by walking over
the bytes behind the selector only where nothing is kept. So a pick depends on what earlier ones
have left: `Knows` says which arguments a scope knows, `Fills` how a pick may change what is kept.
-/

namespace AbiSpan

namespace Function

/-- The first input of a name stands at place `i`. -/
structure FirstNamed (f : Function) (name : String) (i : Nat) : Prop where
  named : ∃ p, f.inputs[i]? = some p ∧ p.name = name
  before_ne : ∀ j < i, ∀ p, f.inputs[j]? = some p → p.name ≠ name

variable {f : Function} {name : String} {i : ℕ}

lemma findIdx?_eq_some_iff : f.inputs.findIdx? (·.name == name) = some i ↔ f.FirstNamed name i := by
  rw [List.findIdx?_eq_some_iff_getElem]
  constructor
  · intro h
    obtain ⟨hi, hname, hbefore⟩ := h
    refine ⟨⟨_, List.getElem?_eq_getElem hi, by simpa using hname⟩, fun j hj p hp => ?_⟩
    obtain ⟨hjlt, rfl⟩ := List.getElem?_eq_some_iff.mp hp
    simpa using hbefore j hj
  · intro h
    obtain ⟨⟨p, hp, hname⟩, hbefore⟩ := h
    obtain ⟨hi, rfl⟩ := List.getElem?_eq_some_iff.mp hp
    refine ⟨hi, by simpa using hname, fun j hj => ?_⟩
    simpa using hbefore j hj _ (List.getElem?_eq_getElem (by omega))

lemma FirstNamed.unique {i' : ℕ} (h : f.FirstNamed name i) (h' : f.FirstNamed name i') :
    i = i' := by
  rw [← findIdx?_eq_some_iff] at h h'
  exact Option.some.inj (h.symm.trans h')

end Function

namespace CallScope

variable {s : CallScope} {name : String} {nodes : List Node} {kept kept' kept'' : Located}
  {state : PickState Located}

/-- The walk finds the arguments at these nodes. -/
def Locates (s : CallScope) (nodes : List Node) : Prop :=
  ∃ data, s.payload = .ok data ∧ Param.RowTree s.function.inputs s.limits data nodes

/-- The arguments are at these nodes: as they are kept, or as the walk finds them if they are
not. -/
def Knows (s : CallScope) (kept : Located) (nodes : List Node) : Prop :=
  kept.lookup s.function.selector = some nodes ∨
    kept.lookup s.function.selector = none ∧ s.Locates nodes

/-- What is kept stays the same, or the arguments that the walk finds are added to it. -/
def Fills (s : CallScope) (kept kept' : Located) : Prop :=
  kept' = kept ∨ ∃ nodes, kept.lookup s.function.selector = none ∧ s.Locates nodes ∧
    kept' = (s.function.selector, nodes) :: kept

/-- Picking the part comes to this range, after what has been kept. -/
def Picks (s : CallScope) (kept : Located) : CallPart → Span → Prop
  | .signature, span => selectorSpan s.node = .ok span
  | .argument name, span => ∃ i nodes m inner, s.function.FirstNamed name i ∧
      s.Knows kept nodes ∧ nodes[i]? = some m ∧ m.span? = some inner ∧
      span = inner.shift (s.node.offset + selectorSize)

lemma Fills.trans (h : s.Fills kept kept') (h' : s.Fills kept' kept'') : s.Fills kept kept'' := by
  rcases h with rfl | ⟨nodes, hnone, hloc, rfl⟩
  · exact h'
  · rcases h' with rfl | ⟨_, hnone', -, -⟩
    · exact .inr ⟨nodes, hnone, hloc, rfl⟩
    · simp at hnone'

/-- The arguments are given where they are known, and kept. -/
lemma always_tree : Always s.tree state fun r state' =>
    s.Fills state.located state'.located ∧
      ∀ nodes, r = .ok nodes ↔ s.Knows state.located nodes := by
  simp only [tree, always_bind, always_get]
  cases hkept : state.located.lookup s.function.selector with
  | some nodes =>
    simp only [always_pure]
    refine ⟨.inl rfl, fun nodes' => ?_⟩
    simp [Knows, hkept]
  | none =>
    have hknows (nodes : List Node) : s.Knows state.located nodes ↔ s.Locates nodes := by
      simp [Knows, hkept]
    simp only [hknows, always_bind, always_ofExcept]
    cases hdata : s.payload with
    | error fault =>
      refine ⟨.inl rfl, fun nodes => ?_⟩
      simp [Locates, hdata]
    | ok data =>
      have hlocates (nodes : List Node) :
          s.Locates nodes ↔ Param.RowTree s.function.inputs s.limits data nodes := by
        simp [Locates, hdata]
      simp only [hlocates]
      cases htypes : Param.rowTypes s.function.inputs with
      | error fault =>
        refine ⟨.inl rfl, fun nodes => ?_⟩
        simp [Param.RowTree, htypes]
      | ok types =>
        have htree (nodes : List Node) : Param.RowTree s.function.inputs s.limits data nodes ↔
            (Layout.locate { bytes := data, limits := s.limits } types).1 = .ok nodes := by
          simp [Param.RowTree, htypes]
        simp only [htree, Picking.always_locate]
        cases hloc : (Layout.locate { bytes := data, limits := s.limits } types).1 with
        | error fault =>
          refine ⟨.inl rfl, fun nodes => ?_⟩
          simp
        | ok nodes =>
          have hfound : s.Locates nodes := (hlocates nodes).mpr ((htree nodes).mpr hloc)
          simp only [Except.mapError, Picking.always_notify, always_modify, always_pure]
          refine ⟨.inr ⟨nodes, hkept, hfound, rfl⟩, fun nodes' => ?_⟩
          simp

/-- An argument is picked just where the function has an input of the name, the arguments are
known, and the first input of the name has a size there. -/
lemma always_argument (name : String) : Always (s.argument name) state fun r state' =>
    s.Fills state.located state'.located ∧
      ∀ span, r = .ok span ↔ s.Picks state.located (.argument name) span := by
  unfold argument
  cases hi : s.function.inputs.findIdx? (·.name == name) with
  | none =>
    simp only [always_throw]
    refine ⟨.inl rfl, fun span => ⟨fun h => (by cases h), fun h => ?_⟩⟩
    obtain ⟨i, _, _, _, hfirst, -⟩ := h
    rw [Function.findIdx?_eq_some_iff.mpr hfirst] at hi
    cases hi
  | some i =>
    have hfirst := Function.findIdx?_eq_some_iff.mp hi
    simp only [always_bind]
    refine always_tree.mono fun r state' hpost => ?_
    obtain ⟨hfills, hknows⟩ := hpost
    have hplace : ∀ span, s.Picks state.located (.argument name) span ↔
        ∃ nodes m inner, r = .ok nodes ∧ nodes[i]? = some m ∧ m.span? = some inner ∧
          span = inner.shift (s.node.offset + selectorSize) := by
      intro span
      constructor
      · intro h
        obtain ⟨i', nodes, m, inner, hfirst', hk, hm, hinner, rfl⟩ := h
        obtain rfl := hfirst.unique hfirst'
        exact ⟨nodes, m, inner, (hknows nodes).mpr hk, hm, hinner, rfl⟩
      · intro h
        obtain ⟨nodes, m, inner, hr, hm, hinner, rfl⟩ := h
        exact ⟨i, nodes, m, inner, hfirst, (hknows nodes).mp hr, hm, hinner, rfl⟩
    simp only [hplace]
    cases r with
    | error fault => exact ⟨hfills, fun span => by simp⟩
    | ok nodes =>
      cases hm : nodes[i]? with
      | none =>
        simp only [hm, always_throw]
        refine ⟨hfills, fun span => ?_⟩
        simp [hm]
      | some m =>
        simp only [hm, always_bind, always_ofExcept, always_pure]
        cases hsize : m.size with
        | none =>
          simp only [Node.span, hsize]
          refine ⟨hfills, fun span => ?_⟩
          simp [hm, Node.span?, hsize]
        | some size =>
          simp only [Node.span, hsize]
          refine ⟨hfills, fun span => ?_⟩
          simp [hm, Node.span?, hsize, eq_comm]

lemma always_range (part : CallPart) : Always (s.range part) state fun r state' =>
    s.Fills state.located state'.located ∧
      ∀ span, r = .ok span ↔ s.Picks state.located part span := by
  cases part with
  | signature =>
    simp only [range, always_ofExcept]
    exact ⟨.inl rfl, fun span => Iff.rfl⟩
  | argument name =>
    simp only [range, always_bind]
    refine (always_argument name).mono fun r state' hpost => ?_
    obtain ⟨hfills, hpicks⟩ := hpost
    cases r with
    | error fault => exact ⟨hfills, hpicks⟩
    | ok span =>
      simp only [Picking.always_notify, always_pure]
      exact ⟨hfills, hpicks⟩

/-- What each pick does to what is kept, and when it succeeds. -/
lemma always_pick (part : CallPart) : Always (s.pick part) state fun r state' =>
    s.Fills state.located state'.located ∧
      ∀ span, r = .ok span ↔ s.Picks state.located part span :=
  Picking.always_bind_select ((always_range part).mono fun _ _ hpost _ => hpost)

/-- A plan run over call data, from what has been kept. -/
def run (s : CallScope) (plan : Plan CallPart) (kept : Located) : Picked × PickState Located :=
  (plan.run s.pick).run { located := kept }

/-- A whole plan changes what is kept no more than one pick may. -/
lemma fills_run (plan : Plan CallPart) (kept : Located) :
    s.Fills kept (s.run plan kept).2.located := by
  have hstep : ∀ part state, s.Fills kept state.located →
      Always (s.pick part) state fun _ state' => s.Fills kept state'.located :=
    fun part _ h => (always_pick part).mono fun _ _ hpost => h.trans hpost.1
  exact Plan.keeps_run hstep plan (.inl rfl)

lemma gathers_run (plan : Plan CallPart) (kept : Located) : ∃ gathered,
    Plan.Gathers s.pick plan { located := kept } [] (s.run plan kept).1.verdict
        (s.run plan kept).2 gathered ∧
      gathered.map (·.2) = (s.run plan kept).1.spans := by
  obtain ⟨gathered, hgathers, hspans, -⟩ := s.appends_pick.runsStepwise plan { located := kept }
  exact ⟨gathered, hgathers, hspans⟩

/-- What is selected in the end is what the picks have come to. -/
lemma spans_run (plan : Plan CallPart) (kept : Located) :
    (s.run plan kept).2.spans = (s.run plan kept).1.spans :=
  s.appends_pick.spans_run plan { located := kept }

/-! ### Against the input of the transaction -/

/-- What is kept for the function is what the walk finds. -/
def Remembers (s : CallScope) (kept : Located) : Prop :=
  ∀ nodes, kept.lookup s.function.selector = some nodes → s.Locates nodes

/-- What picking an argument comes to, when the call data is `input`. -/
structure PicksArgument (s : CallScope) (input : Bytes) (name : String)
    (outcome : Except QueryFault Span) : Prop where
  /-- It succeeds just where an input has the name, the bytes behind the selector are walked
  through, and the first input of the name has a size. -/
  ok_iff : (∃ span, outcome = .ok span) ↔ ∃ i nodes m, s.function.FirstNamed name i ∧
    Param.RowTree s.function.inputs s.limits (input.drop selectorSize) nodes ∧ nodes[i]? = some m ∧
    m.size.isSome = true
  /-- Then it selects the bytes that the input has behind the selector. -/
  selects : ∀ span i nodes m, outcome = .ok span → s.function.FirstNamed name i →
    Param.RowTree s.function.inputs s.limits (input.drop selectorSize) nodes → nodes[i]? = some m →
    ∃ b, m.slice? (input.drop selectorSize) = some b ∧ span.slice? s.encoded = some b
  /-- The range lies inside that of the call data, behind the selector. -/
  inside : ∀ span, outcome = .ok span → ∃ size, s.node.size = some size ∧
    s.node.offset + selectorSize ≤ span.offset ∧
    span.offset + span.size ≤ s.node.offset + size

/-- What picking a part of a call comes to, when the call data is `input`. -/
def PicksRight (s : CallScope) (input : Bytes) : CallPart → Except QueryFault Span → Prop
  | .signature, outcome => outcome = .ok ⟨s.node.offset, selectorSize⟩ ∧
      s.encoded.slice? s.node.offset selectorSize = some s.function.selector.bytes
  | .argument name, outcome => s.PicksArgument input name outcome

variable {input : Bytes}

lemma Locates.unique {nodes' : List Node} (h : s.Locates nodes) (h' : s.Locates nodes') :
    nodes = nodes' := by
  obtain ⟨data, hdata, htree⟩ := h
  obtain ⟨data', hdata', htree'⟩ := h'
  rw [hdata] at hdata'
  cases hdata'
  exact htree.unique htree'

/-- Where what is kept is true, the arguments known are those that the walk finds. -/
lemma Remembers.knows_iff (h : s.Remembers kept) : s.Knows kept nodes ↔ s.Locates nodes := by
  constructor
  · intro hknows
    rcases hknows with hkept | ⟨-, hloc⟩
    · exact h nodes hkept
    · exact hloc
  · intro hloc
    cases hkept : kept.lookup s.function.selector with
    | none => exact .inr ⟨hkept, hloc⟩
    | some nodes' =>
      rw [(h nodes' hkept).unique hloc] at hkept
      exact .inl hkept

lemma Remembers.fills (h : s.Remembers kept) (hfills : s.Fills kept kept') :
    s.Remembers kept' := by
  rcases hfills with rfl | ⟨nodes, -, hloc, rfl⟩
  · exact h
  · intro nodes' hkept
    rw [List.lookup_cons_self] at hkept
    cases hkept
    exact hloc

/-- The bytes behind the selector, where the node shows the input. -/
lemma locates_iff (hslice : s.node.slice? s.encoded = some input)
    (hsel : Fixed.front? selectorSize input = some s.function.selector) :
    s.Locates nodes ↔ Param.RowTree s.function.inputs s.limits (input.drop selectorSize) nodes := by
  obtain ⟨hle, -⟩ := Bytes.slice?_eq_some_iff.mp (Fixed.front?_eq_some hsel)
  have hpayload : s.payload = .ok (input.drop selectorSize) := by
    simp only [payload, hslice]
    rw [if_pos (by omega)]
  simp [Locates, hpayload]

/-- If a pick succeeds with just the range that it comes to, and what is kept is true, then it
comes to what it should. -/
lemma picksArgument (hslice : s.node.slice? s.encoded = some input)
    (hsel : Fixed.front? selectorSize input = some s.function.selector)
    (hkept : s.Remembers kept) {outcome : Except QueryFault Span}
    (h : ∀ span, outcome = .ok span ↔ s.Picks kept (.argument name) span) :
    s.PicksArgument input name outcome := by
  obtain ⟨hle, -⟩ := Bytes.slice?_eq_some_iff.mp (Fixed.front?_eq_some hsel)
  obtain ⟨total, htotal, hinput⟩ := Node.slice?_eq_some_iff.mp hslice
  have hlen := Bytes.length_of_slice? hinput
  have hfound (nodes : List Node) : s.Knows kept nodes ↔
      Param.RowTree s.function.inputs s.limits (input.drop selectorSize) nodes :=
    hkept.knows_iff.trans (locates_iff hslice hsel)
  refine ⟨⟨fun hok => ?_, fun hok => ?_⟩, fun span i nodes m hok hi hnodes hm => ?_,
    fun span hok => ?_⟩
  · obtain ⟨span, hspan⟩ := hok
    obtain ⟨i, nodes, m, inner, hi, hknows, hm, hinner, -⟩ := (h span).mp hspan
    refine ⟨i, nodes, m, hi, (hfound nodes).mp hknows, hm, ?_⟩
    obtain ⟨size, hsize, -⟩ := Option.map_eq_some_iff.mp hinner
    rw [hsize]
    rfl
  · obtain ⟨i, nodes, m, hi, hnodes, hm, hsome⟩ := hok
    obtain ⟨size, hsize⟩ := Option.isSome_iff_exists.mp hsome
    exact ⟨_, (h _).mpr ⟨i, nodes, m, ⟨m.offset, size⟩, hi, (hfound nodes).mpr hnodes, hm, by
      rw [Node.span?, hsize, Option.map_some], rfl⟩⟩
  · obtain ⟨i', nodes', m', inner, hi', hknows, hm', hinner, rfl⟩ := (h span).mp hok
    obtain rfl := hi.unique hi'
    obtain rfl := hnodes.unique ((hfound nodes').mp hknows)
    rw [hm] at hm'
    cases hm'
    obtain ⟨size, hsize, rfl⟩ := Option.map_eq_some_iff.mp hinner
    obtain ⟨hfit, hms⟩ := hnodes.slice? hm hsize
    refine ⟨_, hms.trans (if_pos hfit), ?_⟩
    calc Span.slice? (Span.shift ⟨m.offset, size⟩ (s.node.offset + selectorSize)) s.encoded
        = s.encoded.slice? (s.node.offset + (selectorSize + m.offset)) size := by
          rw [← Nat.add_assoc]
          rfl
      _ = input.slice? (selectorSize + m.offset) size := by
          rw [List.length_drop] at hfit
          exact (Bytes.slice?_slice? hinput (by omega)).symm
      _ = Bytes.slice? (input.drop selectorSize) m.offset size :=
          (Bytes.slice?_drop (by omega) _ _).symm
      _ = some _ := if_pos hfit
  · obtain ⟨i, nodes, m, inner, hi, hknows, hm, hinner, rfl⟩ := (h span).mp hok
    obtain ⟨size, hsize, rfl⟩ := Option.map_eq_some_iff.mp hinner
    obtain ⟨hfit, -⟩ := ((hfound nodes).mp hknows).slice? hm hsize
    rw [List.length_drop] at hfit
    refine ⟨total, htotal, ?_, ?_⟩ <;> simp only [Span.shift] <;> omega

/-- Each pick comes to what it should, and what is kept stays true. -/
lemma always_picksRight (hslice : s.node.slice? s.encoded = some input)
    (hsel : Fixed.front? selectorSize input = some s.function.selector) (part : CallPart)
    (hkept : s.Remembers state.located) : Always (s.pick part) state fun r state' =>
      s.Remembers state'.located ∧ s.PicksRight input part r := by
  refine (always_pick part).mono fun r state' hpost => ?_
  obtain ⟨hfills, hpicks⟩ := hpost
  refine ⟨hkept.fills hfills, ?_⟩
  cases part with
  | argument name => exact picksArgument hslice hsel hkept hpicks
  | signature =>
    obtain ⟨total, htotal, hinput⟩ := Node.slice?_eq_some_iff.mp hslice
    have hfront := Fixed.front?_eq_some hsel
    obtain ⟨hle, -⟩ := Bytes.slice?_eq_some_iff.mp hfront
    have hlen := Bytes.length_of_slice? hinput
    refine ⟨(hpicks _).mpr ?_, ?_⟩
    · show selectorSpan s.node = _
      simp only [selectorSpan, htotal, Option.getD_some]
      rw [if_neg (by omega)]
    · rw [← Nat.add_zero s.node.offset, ← Bytes.slice?_slice? hinput hle, hfront]

end CallScope

end AbiSpan
