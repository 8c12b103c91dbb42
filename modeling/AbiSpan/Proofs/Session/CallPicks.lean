import AbiSpan.Proofs.Session.Adding

/-!
What the plans of a call query pick.

A session keeps where the arguments of calls lie under the selectors of their functions, and what
it keeps was left there by other queries, perhaps for another function of the same selector. In
every session that can be reached all that is kept is justified: it is what the walk over the call
data finds for some function of the called contract. So where such functions take the same types,
a plan picks the arguments as if nothing had been kept.
-/

namespace AbiSpan

namespace Session

/-- The call trees that the session has kept are all justified. -/
def Justified (s : Session) : Prop := ∀ entry ∈ s.callTrees, s.Justifies entry

/-- A session that a run of operations leads to from one that was opened. -/
def Reachable (s : Session) : Prop :=
  ∃ tx receipt encoded settings library opened ops,
    Session.ofEncoded tx receipt encoded settings library = .ok opened ∧ s = opened.performAll ops

variable {s s' : Session} {f : Function} {i : Interface} {n : Node}

lemma Moves.justified (h : s.Moves s') (hs : s.Justified) : s'.Justified := by
  intro entry hentry
  rcases h.learnt entry hentry with hentry | hnew
  · exact (hs entry hentry).mono h.record_eq h.interfaces
  · exact hnew

lemma justified_of_callTrees_eq_nil (h : s.callTrees = []) : s.Justified := by
  simp [Justified, h]

lemma Reachable.justified (h : s.Reachable) : s.Justified := by
  obtain ⟨_, _, _, _, _, opened, ops, hopened, rfl⟩ := h
  obtain ⟨notices, -, hfresh⟩ := ofEncoded_inv hopened
  refine (opened.moves_performAll ops).justified (justified_of_callTrees_eq_nil ?_)
  rw [hfresh]

lemma reachable_of_ofEncoded {tx : Transaction} {receipt : Receipt} {encoded : Bytes}
    {settings : Settings} {library : Library}
    (h : Session.ofEncoded tx receipt encoded settings library = .ok s) : s.Reachable :=
  ⟨_, _, _, _, _, s, [], h, rfl⟩

lemma Reachable.performAll (h : s.Reachable) (ops : List Operation) :
    (s.performAll ops).Reachable := by
  obtain ⟨_, _, _, _, _, opened, ops', hopened, rfl⟩ := h
  exact ⟨_, _, _, _, _, opened, ops' ++ ops, hopened, List.foldl_append.symm⟩

end Session

/-- The field of call data shows the input of the transaction. -/
def Record.ShowsInput (r : Record) : Prop :=
  ∃ n, r.field? .data = some n ∧ n.slice? r.encoded = some r.tx.input

/-- Functions that share a selector take the same types. -/
def Interface.Uniform (i : Interface) : Prop :=
  ∀ f ∈ i.functions, ∀ g ∈ i.functions, f.selector = g.selector →
    ∀ types, Param.rowTypes f.inputs = .ok types → Param.rowTypes g.inputs = .ok types

namespace Session

variable {s s' : Session} {f : Function} {i : Interface} {n : Node}

/-- A plan was run over the call of a function, the only one that the query names in the interface
of the called contract, and all its picks came to what they should. -/
def CalledRight (s : Session) (query : String) (configure : Function → Plan CallPart)
    (f : Function) (outcomes : Outcomes) : Prop :=
  ∃ i n, s.Names query f i ∧ s.record.field? .data = some n ∧
    s.record.encoded.slice? n.offset selectorSize = some f.selector.bytes ∧
    (i.Uniform → List.Forall₂ ((s.record.callScope f n).PicksRight s.record.tx.input)
      ((configure f).asked outcomes) outcomes)

/-- What justified entries keep under the selector of a function was found for a function of that
selector, and is what the walk finds if the two take the same types. -/
lemma locates_of_justifies {kept : CallScope.Located} (hkept : ∀ entry ∈ kept, s.Justifies entry)
    (hn : s.record.field? .data = some n) {nodes : List Node}
    (hlookup : kept.lookup f.selector = some nodes) :
    ∃ i g, s.Recalls i ∧ g ∈ i.functions ∧ g.selector = f.selector ∧
      ((∀ types, Param.rowTypes g.inputs = .ok types → Param.rowTypes f.inputs = .ok types) →
        (s.record.callScope f n).Locates nodes) := by
  obtain ⟨i, g, n', hi, hg, hselector, hn', data, hdata, types, htypes, hnodes⟩ :=
    hkept _ (mem_of_lookup hlookup)
  rw [hn] at hn'
  cases hn'
  exact ⟨i, g, hi, hg, hselector, fun hsame => ⟨data, hdata, types, hsame types htypes, hnodes⟩⟩

/-- Under uniform selectors, what justified entries keep for a function is what the walk finds. -/
lemma remembers_of_justifies {kept : CallScope.Located}
    (hkept : ∀ entry ∈ kept, s.Justifies entry) (hi : s.Recalls i) (hf : f ∈ i.functions)
    (huniform : i.Uniform) (hn : s.record.field? .data = some n) :
    (s.record.callScope f n).Remembers kept := by
  intro nodes hlookup
  obtain ⟨i', g, hi', hg, hselector, hlocates⟩ := locates_of_justifies hkept hn hlookup
  obtain rfl := hi.unique hi'
  exact hlocates (huniform g hg f hf hselector)

/-- What a query for the called function leaves behind. If it comes to a function, its journal tells
of a plan run for that function, and of no plan but one that picked what it should. If the query
has succeeded, what that plan picked has been gathered; if it has failed, nothing has. -/
structure Called (s : Session) (query : String) (configure : Function → Plan CallPart)
    (r : Except QueryFault Unit) (s' : Session) : Prop where
  record_eq : s'.record = s.record
  picks : ∃ deeds, s'.journal.toList = s.journal.toList ++ deeds ∧
    (∀ f outcomes, .pickedCall f outcomes ∈ deeds → s'.CalledRight query configure f outcomes) ∧
    (∀ f, s.Calls query f → ∃ outcomes, .pickedCall f outcomes ∈ deeds) ∧
    (r = .ok () → ∃ f outcomes, .pickedCall f outcomes ∈ deeds ∧
      s'.spans = s.spans ++ outcomes.filterMap (·.toOption))
  fails : ∀ fault, r = .error fault → s'.spans = s.spans

lemma called_error (h : s.LooksUp s') {query : String} (hcalls : ∀ f, ¬ s.Calls query f)
    (configure : Function → Plan CallPart) (fault : QueryFault) :
    s.Called query configure (.error fault) s' := by
  obtain ⟨deeds, hj, hdeeds⟩ := h.journal_eq
  refine ⟨h.record_eq, ⟨deeds, hj, fun f outcomes hmem => ?_, fun f hf => absurd hf (hcalls f),
    fun hr => by cases hr⟩, fun _ _ => h.spans_eq⟩
  cases hdeeds _ hmem

variable {query : String} {configure : Function → Plan CallPart}

/-- The plan that has been run picked what it should. -/
lemma RunsCall.calledRight (h : s.RunsCall query configure f n s') (hs : s.Justified)
    (hinput : s.record.ShowsInput) : s'.CalledRight query configure f
      ((s.record.callScope f n).run (configure f) s.callTrees).1.outcomes := by
  obtain ⟨n', hn', hslice⟩ := hinput
  rw [h.node] at hn'
  cases hn'
  obtain ⟨i, hnames⟩ := h.names
  have hselector := hnames.selector
  rw [h.record_eq] at hselector
  have hfront := Fixed.front?_eq_some hselector
  obtain ⟨hle, -⟩ := Bytes.slice?_eq_some_iff.mp hfront
  obtain ⟨size, -, hbytes⟩ := Node.slice?_eq_some_iff.mp hslice
  refine ⟨i, n, hnames, by rw [h.record_eq, h.node], ?_, fun huniform => ?_⟩
  · rw [h.record_eq, ← Nat.add_zero n.offset, ← Bytes.slice?_slice? hbytes hle, hfront]
  · -- The interface may have been fetched by this very query, so what was kept before is held
    -- against the later session.
    have hkept : ∀ entry ∈ s.callTrees, s'.Justifies entry := fun entry hentry =>
      (hs entry hentry).mono h.record_eq h.interfaces
    have hremembers := remembers_of_justifies hkept hnames.recalls hnames.only.mem huniform
      (by rw [h.record_eq, h.node])
    rw [h.record_eq] at hremembers ⊢
    have hstep : ∀ part (state : PickState CallScope.Located),
        (s.record.callScope f n).Remembers state.located →
        Always ((s.record.callScope f n).pick part) state fun r state' =>
          (s.record.callScope f n).Remembers state'.located ∧
            (s.record.callScope f n).PicksRight s.record.tx.input part r :=
      fun part _ => CallScope.always_picksRight (s := s.record.callScope f n) hslice hselector part
    exact Plan.forall₂_asked_run hstep (configure f) hremembers

lemma called_resolveFunction (hs : s.Justified) (hinput : s.record.ShowsInput) (query : String)
    (configure : Function → Plan CallPart) :
    Always (Query.resolveFunction query configure) s (s.Called query configure) := by
  refine (Query.always_resolveFunction query configure).mono fun r s' hpost => ?_
  rcases hpost with ⟨fault, rfl, h, hcalls⟩ | ⟨f, n, hruns, -, hend⟩
  · refine called_error h (fun f hf => ?_) configure fault
    obtain ⟨n, hn, -⟩ := hinput
    rw [hcalls f hf] at hn
    cases hn
  · obtain ⟨before, after, hj, hdeeds⟩ := hruns.journal_eq
    have hright := hruns.calledRight hs hinput
    have hrecord := hruns.record_eq
    have hcalls : ∀ g, s.Calls query g → g = f := fun g hg => by
      rw [Calls, hruns.calls] at hg
      cases hg
      rfl
    generalize ((s.record.callScope f n).run (configure f) s.callTrees).1 = picked
      at hj hright hend
    rw [List.append_assoc] at hj
    refine ⟨hrecord, ⟨_, hj, ?_, fun g hg => ?_, fun hr => ?_⟩, fun fault hr => ?_⟩
    · intro g outcomes hmem
      rcases List.mem_append.mp hmem with hmem | hmem
      · cases hdeeds _ (List.mem_append_left _ hmem)
      · rcases List.mem_cons.mp hmem with heq | hmem
        · cases heq
          exact hright
        · cases hdeeds _ (List.mem_append_right _ hmem)
    · rw [hcalls g hg]
      exact ⟨_, List.mem_append_right _ List.mem_cons_self⟩
    · rcases hend with ⟨-, hspans⟩ | ⟨fault, hr', -⟩
      · exact ⟨f, _, List.mem_append_right _ List.mem_cons_self, hspans⟩
      · rw [hr] at hr'
        cases hr'
    · rcases hend with ⟨hr', -⟩ | ⟨_, -, hspans⟩
      · rw [hr] at hr'
        cases hr'
      · exact hspans

/-- **Function selections point at the right bytes.** In every session that can be reached over a
record whose call data is the input of the transaction, a query for the called function runs its
plan for the only function it names; the plan picks the selector and, where functions that share
a selector take the same types, each argument where it stands behind the selector. -/
theorem perform_calls (hs : s.Reachable) (hinput : s.record.ShowsInput) (query : String)
    (configure : Function → Plan CallPart) :
    s.Called query configure (s.perform (.resolveFunction query configure)).1
      (s.perform (.resolveFunction query configure)).2 :=
  called_resolveFunction hs.justified hinput query configure

end Session

/-! ### A session with one call -/

/-- A transaction that calls `pay(uint8)` with a nine. -/
def payment : Transaction where
  kind := .legacy
  destination := some ⟨List.replicate 20 5, rfl⟩
  input := [240, 201, 50, 94] ++ Bytes.ofNat 32 9

/-- Its record: fifteen words, of which three point to the call data, no logs and no blooms. -/
def payRecord : Bytes :=
  [0, 0, 0, 0, 0, 0, 0, 480, 0, 0, 0, 1, 0, 576, 608].flatMap (Bytes.ofNat 32) ++
    (Bytes.ofNat 32 36 ++ payment.input ++ List.replicate 28 0) ++ Bytes.ofNat 32 0 ++
    Bytes.ofNat 32 0

/-- The session that is opened over the record. -/
def payOpened : Session :=
  (Session.ofEncoded payment { logs := [] } payRecord {}).toOption.get (by decide +kernel)

lemma ofEncoded_payRecord :
    Session.ofEncoded payment { logs := [] } payRecord {} = .ok payOpened :=
  eq_ok_of_toOption (Option.some_get _).symm

/-- The interface of the contract that is paid. -/
def payText : String :=
  "[\x7b\"type\":\"function\",\"name\":\"pay\"," ++
    "\"inputs\":[\x7b\"name\":\"amount\",\"type\":\"uint8\"\x7d]," ++
    "\"outputs\":[],\"stateMutability\":\"view\"\x7d]"

/-- The session once it has a source. -/
def paySession : Session := payOpened.performAll [.setSource (.table [] (some payText))]

/-- Picks the selector, an argument that there is not, and the only one that there is. -/
def payPlan (_ : Function) : Plan CallPart :=
  .inOrder [(.signature, false), (.argument "fee", true), (.argument "amount", false)]

/-- The selector and the amount are picked. -/
theorem paySession_calls : paySession.Reachable ∧ paySession.record.ShowsInput ∧
    (paySession.perform (.resolveFunction "pay" payPlan)).2.spans = [⟨512, 4⟩, ⟨516, 32⟩] ∧
    paySession.Called "pay" payPlan (paySession.perform (.resolveFunction "pay" payPlan)).1
      (paySession.perform (.resolveFunction "pay" payPlan)).2 := by
  have hreachable : paySession.Reachable :=
    (Session.reachable_of_ofEncoded ofEncoded_payRecord).performAll _
  have hinput : paySession.record.ShowsInput := Option.bind_eq_some_iff.mp (by decide +kernel)
  exact ⟨hreachable, hinput, by decide +kernel,
    Session.perform_calls hreachable hinput "pay" payPlan⟩

end AbiSpan
