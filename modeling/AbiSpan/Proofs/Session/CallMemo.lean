import AbiSpan.Proofs.Session.CallPicks

/-!
The trees that a session keeps for calls cannot be told from walks done anew.

What is kept under a selector was found for a function of that selector. If all functions of the
called contract that have the selector of the call take the same types, each pick comes to what a
walk would come to now, faults included, so a query for the called function ends as it would in a
session that has kept nothing. Where two functions share a selector and not their types, it does
not: the function that is asked for first decides where the arguments of the other are found.
-/

namespace AbiSpan

namespace CallScope

variable {s : CallScope} {name : String} {state : PickState Located}

/-- What walking over the arguments comes to, if nothing is kept. -/
def walked (s : CallScope) : Except QueryFault (List Node) := do
  let payload ← s.payload
  let types ← Param.rowTypes s.function.inputs
  (Layout.locate { bytes := payload, limits := s.limits } types).1.mapError .reading

/-- What picking an argument comes to, from what the walk comes to. -/
def argumentIn (s : CallScope) (name : String) (tree : Except QueryFault (List Node)) :
    Except QueryFault Span :=
  match s.function.inputs.findIdx? (·.name == name) with
  | none => .error (.unknownArgument name ("function " ++ s.function.signature))
  | some i => do
    let nodes ← tree
    match nodes[i]? with
    | some n => return (← n.span).shift (s.node.offset + selectorSize)
    | none => throw (.countMismatch s.function.inputs.length nodes.length)

/-- What picking a part comes to, if nothing is kept. -/
def picked (s : CallScope) : CallPart → Except QueryFault Span
  | .signature => selectorSpan s.node
  | .argument name => s.argumentIn name s.walked

lemma locates_iff_walked {nodes : List Node} : s.Locates nodes ↔ s.walked = .ok nodes := by
  unfold Locates walked Param.RowTree
  cases s.payload with
  | error fault => simp [bind, Except.bind]
  | ok data =>
    cases Param.rowTypes s.function.inputs with
    | error fault => simp [bind, Except.bind]
    | ok types =>
      cases hloc : (Layout.locate { bytes := data, limits := s.limits } types).1 with
      | error fault => simp [bind, Except.bind, hloc, Except.mapError]
      | ok nodes' => simp [bind, Except.bind, hloc, Except.mapError]

/-- Where what is kept is true, it makes no difference to the tree. -/
lemma always_tree_walked (h : s.Remembers state.located) :
    Always s.tree state fun r _ => r = s.walked := by
  simp only [tree, always_bind, always_get]
  cases hkept : state.located.lookup s.function.selector with
  | some nodes =>
    simp only [always_pure]
    exact (locates_iff_walked.mp (h nodes hkept)).symm
  | none =>
    simp only [always_bind, always_ofExcept, walked]
    cases s.payload with
    | error fault => rfl
    | ok data =>
      cases Param.rowTypes s.function.inputs with
      | error fault => rfl
      | ok types =>
        simp only [Picking.always_locate]
        cases hloc : (Layout.locate { bytes := data, limits := s.limits } types).1 with
        | error fault => simp [bind, Except.bind, hloc, Except.mapError]
        | ok nodes =>
          simp only [Except.mapError, Picking.always_notify, always_modify, always_pure]
          simp [bind, Except.bind, hloc]

lemma always_argument_walked (h : s.Remembers state.located) (name : String) :
    Always (s.argument name) state fun r _ => r = s.argumentIn name s.walked := by
  unfold argument argumentIn
  cases s.function.inputs.findIdx? (·.name == name) with
  | none => rfl
  | some i =>
    simp only [always_bind]
    refine (always_tree_walked h).mono fun r state' hr => ?_
    subst hr
    cases s.walked with
    | error fault => rfl
    | ok nodes =>
      simp only [bind, Except.bind]
      cases nodes[i]? with
      | none => rfl
      | some n =>
        dsimp only
        cases n.span <;> rfl

/-- Each pick comes to what it would come to if nothing were kept. -/
lemma always_pick_picked (part : CallPart) (h : s.Remembers state.located) :
    Always (s.pick part) state fun r state' => s.Remembers state'.located ∧ r = s.picked part := by
  have hkept : s.Remembers (outcome (s.pick part) state).2.located :=
    h.fills (always_pick part).1
  refine ⟨hkept, ?_⟩
  show Always (s.pick part) state fun r _ => r = s.picked part
  refine Picking.always_bind_select (Always.mono ?_ fun _ _ hr _ => hr)
  cases part with
  | signature => simp only [range, picked, always_ofExcept]
  | argument name =>
    simp only [range, picked, always_bind]
    refine (always_argument_walked h name).mono fun r state' hr => ?_
    subst hr
    cases s.argumentIn name s.walked with
    | error fault => rfl
    | ok span => simp only [Picking.always_notify, always_pure]

/-- A plan goes the same from whatever is kept, as long as that is true. -/
lemma run_fst_eq {kept kept' : Located} (h : s.Remembers kept) (h' : s.Remembers kept')
    (plan : Plan CallPart) : (s.run plan kept).1 = (s.run plan kept').1 := by
  have hstep : ∀ part (state : PickState Located), s.Remembers state.located →
      Always (s.pick part) state fun r state' =>
        s.Remembers state'.located ∧ r = s.picked part :=
    fun part _ hstate => always_pick_picked part hstate
  exact Plan.run_fst_eq hstep plan h h'

end CallScope

namespace Query

/-- The computation neither looks at the trees that are kept for calls nor changes them. -/
def Blind {α : Type} (x : Query α) : Prop :=
  ∀ s trees, outcome x { s with callTrees := trees } =
    ((outcome x s).1, { (outcome x s).2 with callTrees := trees })

section Blind

variable {α β : Type}

lemma blind_pure (a : α) : Blind (pure a) := fun _ _ => rfl

lemma blind_throw (fault : QueryFault) : Blind (throw fault : Query α) := fun _ _ => rfl

lemma blind_ofExcept (x : Except QueryFault α) : Blind (MonadExcept.ofExcept x) := by
  intro s trees
  cases x <;> rfl

lemma blind_write (d : Deed) : Blind (write d) := fun _ _ => rfl

lemma blind_record : Blind record := fun _ _ => rfl

lemma Blind.bind {x : Query α} {f : α → Query β} (hx : Blind x) (hf : ∀ a, Blind (f a)) :
    Blind (x >>= f) := by
  intro s trees
  rw [outcome_bind, outcome_bind, hx s trees]
  rcases outcome x s with ⟨fault | a, s'⟩
  · rfl
  · exact hf a s' trees

/-- The session is looked at, but not its trees. -/
lemma blind_get {f : Session → Query β} (hsame : ∀ s trees, f { s with callTrees := trees } = f s)
    (hf : ∀ s, Blind (f s)) : Blind (get >>= f) := by
  intro s trees
  rw [outcome_bind, outcome_bind]
  show outcome (f { s with callTrees := trees }) { s with callTrees := trees } = _
  rw [hsame]
  exact hf s s trees

lemma blind_fetch (source : Source) (a : Address) : Blind (fetch source a) := by
  refine blind_record.bind fun r => blind_get (fun _ _ => rfl) fun s =>
    (blind_write _).bind fun _ => ?_
  cases source.answer s.journal.asked a with
  | error fault => exact blind_throw _
  | ok text =>
    simp only
    cases r.library.interface? text with
    | none => exact blind_throw _
    | some i =>
      exact (blind_write _).bind fun _ => Blind.bind (fun _ _ => rfl) fun _ => blind_pure i

lemma blind_interfaceOf (a : Address) : Blind (interfaceOf a) := by
  refine blind_get (fun _ _ => rfl) fun s => ?_
  cases s.source with
  | none => exact blind_throw _
  | some source =>
    have hrest : ∀ i : Interface, Blind (do
        notify (.interfaceReady a (← get).interfaces.length)
        return i) := fun i =>
      blind_get (fun _ _ => rfl) fun _ => (blind_write _).bind fun _ => blind_pure i
    refine blind_get (fun _ _ => rfl) fun s' => ?_
    cases s'.interfaces.lookup a with
    | some i => exact (blind_write _).bind fun _ => hrest i
    | none => exact (blind_fetch source a).bind hrest

lemma blind_calledFunction (query : String) : Blind (calledFunction query) := by
  refine blind_record.bind fun r => (blind_ofExcept _).bind fun target => ?_
  refine (blind_interfaceOf target.1).bind fun i => (blind_ofExcept _).bind fun key =>
    (blind_ofExcept _).bind fun f => ?_
  split
  · exact (blind_throw _).bind fun _ => blind_pure f
  · exact blind_pure f

end Blind

end Query

namespace Session

variable {s s' : Session} {op : Operation} {query : String}
  {configure : Function → Plan CallPart}

/-- The session, had it kept no trees for calls. -/
def forgetful (s : Session) : Session := { s with callTrees := [] }

/-- What is kept for calls cannot be told from the operation: it ends the same, and leaves the same
ranges, as it would if nothing were kept. -/
def HidesTrees (s : Session) (op : Operation) : Prop :=
  (s.perform op).1 = (s.forgetful.perform op).1 ∧
    (s.perform op).2.spans = (s.forgetful.perform op).2.spans

/-- How a query ends is determined by how its plan went. -/
lemma EndsAs.unique {t t' : Session} {picked : Picked} {r r' : Except QueryFault Unit}
    (hspans : s.spans = t.spans) (h : s.EndsAs picked r s') (h' : t.EndsAs picked r' t') :
    r = r' ∧ s'.spans = t'.spans := by
  obtain ⟨rfl, h⟩ := h
  obtain ⟨rfl, h'⟩ := h'
  refine ⟨rfl, ?_⟩
  rcases h with ⟨hok, h⟩ | ⟨fault, herror, h⟩
  · rcases h' with ⟨-, h'⟩ | ⟨fault, herror, -⟩
    · rw [h, h', hspans]
    · rw [hok] at herror
      cases herror
  · rcases h' with ⟨hok, -⟩ | ⟨_, -, h'⟩
    · rw [hok] at herror
      cases herror
    · rw [h, h', hspans]

end Session

/-- Functions of the selector take the same types. -/
def Interface.UniformAt (i : Interface) (selector : Selector) : Prop :=
  ∀ f ∈ i.functions, ∀ g ∈ i.functions, f.selector = selector → g.selector = selector →
    ∀ types, Param.rowTypes f.inputs = .ok types → Param.rowTypes g.inputs = .ok types

namespace Session

variable {s : Session} {query : String}

/-- If what is kept is true of the function, running its plan does not show it. -/
lemma same_runCalled (configure : Function → Plan CallPart) {f : Function}
    (h : ∀ n, Query.callNode s.record = .ok n →
      (s.record.callScope f n).Remembers s.callTrees) :
    (outcome (Query.runCalled configure f) s).1 =
        (outcome (Query.runCalled configure f) s.forgetful).1 ∧
      (outcome (Query.runCalled configure f) s).2.spans =
        (outcome (Query.runCalled configure f) s.forgetful).2.spans := by
  have hends := Query.always_runCalled (s := s) configure f
  have hends' := Query.always_runCalled (s := s.forgetful) configure f
  cases hn : Query.callNode s.record with
  | error fault =>
    -- both end before a plan is run
    obtain ⟨hr, hs⟩ := hends.1 fault hn
    obtain ⟨hr', hs'⟩ := hends'.1 fault hn
    rw [hr, hr', hs, hs']
    exact ⟨rfl, rfl⟩
  | ok n =>
    have hplan : ((s.record.callScope f n).run (configure f) s.callTrees).1 =
        ((s.record.callScope f n).run (configure f) []).1 :=
      CallScope.run_fst_eq (h n hn) (fun _ h => by cases h) (configure f)
    have hended := hends.2 n hn
    rw [hplan] at hended
    exact EndsAs.unique rfl hended (hends'.2 n hn)

lemma calledFunction_forgetful (query : String) (s : Session) :
    outcome (Query.calledFunction query) s.forgetful =
      ((outcome (Query.calledFunction query) s).1,
        (outcome (Query.calledFunction query) s).2.forgetful) :=
  Query.blind_calledFunction query s []

/-- If what is kept is true of the function that the query comes to, the query does not show it. -/
lemma same_resolveFunction (query : String) (configure : Function → Plan CallPart)
    (h : ∀ f n, s.Calls query f → s.record.field? .data = some n →
      (s.record.callScope f n).Remembers s.callTrees) :
    (outcome (Query.resolveFunction query configure) s).1 =
        (outcome (Query.resolveFunction query configure) s.forgetful).1 ∧
      (outcome (Query.resolveFunction query configure) s).2.spans =
        (outcome (Query.resolveFunction query configure) s.forgetful).2.spans := by
  have hblind := calledFunction_forgetful query s
  have hcalled := Query.always_calledFunction (s := s) query
  unfold Always at hcalled
  unfold Calls at h
  unfold Query.resolveFunction
  cases hout : outcome (Query.calledFunction query) s with
  | mk r s1 =>
    rw [hout] at hblind hcalled h
    obtain ⟨h1, -⟩ := hcalled
    cases r with
    | error fault =>
      rw [outcome_bind_error hout, outcome_bind_error hblind]
      exact ⟨rfl, rfl⟩
    | ok f =>
      rw [outcome_bind_ok hout, outcome_bind_ok hblind]
      refine same_runCalled configure fun n hn => ?_
      have hdata := Query.callNode_eq_ok_iff.mp hn
      rw [h1.record_eq] at hdata ⊢
      rw [h1.callTrees_eq]
      exact h f n rfl hdata

/-- The functions that are known to have the called selector take the same types. -/
def UniformCall (s : Session) : Prop :=
  ∀ i selector, s.Recalls i → s.record.tx.selector? = some selector → i.UniformAt selector

/-- Where the functions of the called selector take the same types, what is kept for them is what
the walk finds. An interface that this very query fetches has nothing kept for it. -/
lemma remembers_of_uniformCall (hs : s.Justified) (huniform : s.UniformCall) {f : Function}
    {n : Node} (hcalls : s.Calls query f) (hn : s.record.field? .data = some n) :
    (s.record.callScope f n).Remembers s.callTrees := by
  have hcalled := Query.always_calledFunction (s := s) query
  unfold Always at hcalled
  obtain ⟨h1, hnames⟩ := hcalled
  obtain ⟨i, hi, honly, hselector⟩ := hnames f hcalls
  rw [h1.record_eq] at hselector
  intro nodes hlookup
  obtain ⟨i', g, hi', hg, hsame, hlocates⟩ := locates_of_justifies hs hn hlookup
  obtain rfl := hi.unique (hi'.mono h1.record_eq h1.interfaces)
  exact hlocates (huniform i f.selector hi' hselector g hg f honly.mem hsame rfl)

/-- **What is kept for calls is invisible, where selectors are uniform.** In every session that can
be reached, if the functions of the called contract that have the selector of the call take the
same types, a query for a function ends as it would if nothing were kept, with the same fault or
with the same ranges. -/
theorem perform_hides_trees (hs : s.Reachable) (huniform : s.UniformCall) (query : String)
    (configure : Function → Plan CallPart) (name : String) :
    s.HidesTrees (.resolveFunction query configure) ∧
      s.HidesTrees (.functionArgument query name) := by
  have hsame : ∀ configure, _ ∧ _ := fun configure =>
    same_resolveFunction query configure fun _ _ => remembers_of_uniformCall hs.justified huniform
  exact ⟨hsame configure, hsame fun _ => .single (.argument name)⟩

end Session

lemma Interface.uniformAt_of_length {i : Interface} (h : i.functions.length = 1)
    (selector : Selector) : i.UniformAt selector := by
  obtain ⟨f, hf⟩ := List.length_eq_one_iff.mp h
  intro g hg g' hg' _ _ types htypes
  rw [hf, List.mem_singleton] at hg hg'
  rwa [hg', ← hg]

/-- The session of the payment once its amount has been asked for. -/
def paidSession : Session :=
  payOpened.performAll [.setSource (.table [] (some payText)), .functionArgument "pay" "amount"]

lemma paidSession_kept :
    paidSession.callTrees.length = 1 ∧ paidSession.interfaces.map (·.2.functions.length) = [1] := by
  decide +kernel

/-- What is kept for the payment is invisible. -/
theorem paidSession_hides_trees : paidSession.Reachable ∧ paidSession.UniformCall ∧
    paidSession.callTrees.length = 1 ∧
    paidSession.HidesTrees (.resolveFunction "pay" payPlan) ∧
    paidSession.HidesTrees (.functionArgument "pay" "amount") := by
  have hreachable : paidSession.Reachable :=
    (Session.reachable_of_ofEncoded ofEncoded_payRecord).performAll _
  obtain ⟨hkept, hlengths⟩ := paidSession_kept
  have huniform : paidSession.UniformCall := by
    intro i selector hi _
    obtain ⟨a, -, hlookup⟩ := hi
    refine i.uniformAt_of_length (List.mem_singleton.mp ?_) selector
    rw [← hlengths]
    exact List.mem_map.mpr ⟨_, mem_of_lookup hlookup, rfl⟩
  exact ⟨hreachable, huniform, hkept,
    Session.perform_hides_trees hreachable huniform "pay" payPlan "amount"⟩

end AbiSpan
