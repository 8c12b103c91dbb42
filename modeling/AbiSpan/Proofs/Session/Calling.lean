import AbiSpan.Session.Operation
import AbiSpan.Proofs.Call.Pick
import AbiSpan.Proofs.Session.Lookup

/-!
What a query for the called function does to a session.

Either it fails before a plan is run, and the session has only looked up an interface; or it runs
a plan over the call data, from the trees that the session has kept, and keeps what the plan
leaves. The function is then the only one that the query names in the interface that the session
remembers for the called contract, and its selector is that of the transaction.
-/

namespace AbiSpan

/-- The scope in which the parts of a call are picked. -/
def Record.callScope (r : Record) (f : Function) (n : Node) : CallScope :=
  { encoded := r.encoded, node := n, function := f, limits := r.settings.limits }

/-- The function is the only one of the interface that the query names. -/
def Interface.NamesOnly (i : Interface) (query : String) (f : Function) : Prop :=
  ∃ key, ItemKey.ofFunctionQuery query = .ok key ∧
    (i.functions.filter fun g => key.names g.selector.bytes g.signature g.name) = [f]

lemma Interface.NamesOnly.mem {i : Interface} {query : String} {f : Function}
    (h : i.NamesOnly query f) : f ∈ i.functions := by
  obtain ⟨key, -, honly⟩ := h
  have hmem : f ∈ [f] := List.mem_singleton_self f
  rw [← honly] at hmem
  exact (List.mem_filter.mp hmem).1

lemma Interface.namesOnly_of_function {i : Interface} {query : String} {key : ItemKey}
    {a : Address} {f : Function} (hkey : ItemKey.ofFunctionQuery query = .ok key)
    (h : i.function key query a = .ok f) : i.NamesOnly query f := by
  refine ⟨key, hkey, ?_⟩
  unfold Interface.function at h
  split at h
  · cases h
  · rename_i g hg
    cases h
    exact hg
  · cases h

namespace Session

/-- The interface is the one that the session remembers for the called contract. -/
def Recalls (s : Session) (i : Interface) : Prop :=
  ∃ a, s.record.tx.destination = some a ∧ s.interfaces.lookup a = some i

/-- The transaction calls the function, and the query names it. -/
structure Names (s : Session) (query : String) (f : Function) (i : Interface) : Prop where
  recalls : s.Recalls i
  only : i.NamesOnly query f
  selector : s.record.tx.selector? = some f.selector

/-- A query for functions comes to this one. -/
def Calls (s : Session) (query : String) (f : Function) : Prop :=
  (outcome (Query.calledFunction query) s).1 = .ok f

variable {s s' : Session} {query : String} {f : Function} {i : Interface} {n : Node}
  {configure : Function → Plan CallPart} {r : Except QueryFault Unit}

lemma Recalls.unique {i' : Interface} (h : s.Recalls i) (h' : s.Recalls i') : i = i' := by
  obtain ⟨a, ha, hi⟩ := h
  obtain ⟨a', ha', hi'⟩ := h'
  rw [ha] at ha'
  cases ha'
  exact Option.some.inj (hi.symm.trans hi')

/-- What is remembered once is remembered later. -/
lemma Recalls.mono (h : s.Recalls i) (hr : s'.record = s.record)
    (hi : Gains s.interfaces s'.interfaces) : s'.Recalls i := by
  obtain ⟨a, ha, hlookup⟩ := h
  exact ⟨a, by rw [hr, ha], hi.lookup a i hlookup⟩

/-- The query has run its plan over the call data: `s` is the session before, `s'` one after. -/
structure RunsCall (s : Session) (query : String) (configure : Function → Plan CallPart)
    (f : Function) (n : Node) (s' : Session) : Prop where
  calls : s.Calls query f
  names : ∃ i, s'.Names query f i
  node : s.record.field? .data = some n
  record_eq : s'.record = s.record
  source_eq : s'.source = s.source
  interfaces : Gains s.interfaces s'.interfaces
  callTrees_eq :
    s'.callTrees = ((s.record.callScope f n).run (configure f) s.callTrees).2.located
  journal_eq : ∃ before after, s'.journal.toList = s.journal.toList ++ before ++
    .pickedCall f ((s.record.callScope f n).run (configure f) s.callTrees).1.outcomes :: after ∧
    ∀ d ∈ before ++ after, d.isPick = false

namespace RunsCall

lemma notify (h : s.RunsCall query configure f n s') (notice : Notice) :
    s.RunsCall query configure f n { s' with journal := s'.journal.push (.noted notice) } := by
  obtain ⟨before, after, hj, hdeeds⟩ := h.journal_eq
  refine { h with names := ?_, journal_eq := ⟨before, after ++ [.noted notice], by simp [hj], ?_⟩ }
  · obtain ⟨i, hrecalls, honly, hselector⟩ := h.names
    exact ⟨i, hrecalls, honly, hselector⟩
  · intro d hd
    rw [← List.append_assoc] at hd
    rcases List.mem_append.mp hd with hd | hd
    · exact hdeeds d hd
    · rw [List.mem_singleton.mp hd]
      rfl

lemma gather (h : s.RunsCall query configure f n s') (spans : List Span) :
    s.RunsCall query configure f n { s' with spans := s'.spans ++ spans } := by
  obtain ⟨i, hrecalls, honly, hselector⟩ := h.names
  exact { h with names := ⟨i, hrecalls, honly, hselector⟩ }

end RunsCall

/-- The session after a plan over the call data of `f` has gone so: its trees, its notices and its
picks have been kept. -/
def ran (s : Session) (f : Function) (run : Picked × PickState CallScope.Located) : Session :=
  { s with
    callTrees := run.2.located
    journal := (s.journal ++ run.2.notices.map Deed.noted).push (.pickedCall f run.1.outcomes) }

/-- How a query ends that has run its plan: with the verdict of the plan, and only if that is good
with the ranges gathered. -/
def EndsAs (s : Session) (picked : Picked) (r : Except QueryFault Unit) (s' : Session) : Prop :=
  picked.verdict = r ∧ (r = .ok () ∧ s'.spans = s.spans ++ picked.spans ∨
    ∃ fault, r = .error fault ∧ s'.spans = s.spans)

end Session

namespace Query

open Session

variable {s : Session}

lemma callTarget_eq_ok {tx : Transaction} {a : Address} {selector : Selector}
    (h : callTarget tx = .ok (a, selector)) :
    tx.destination = some a ∧ tx.selector? = some selector := by
  unfold callTarget at h
  split at h
  · cases h
  · split at h
    · cases h
    · cases h
    · rename_i hdestination hselector
      cases h
      exact ⟨hdestination, hselector⟩

/-- Looking for the called function looks up an interface and does nothing else. -/
lemma always_calledFunction (query : String) :
    Always (calledFunction query) s fun r s' => s.LooksUp s' ∧
      ∀ f, r = .ok f → ∃ i, s'.Names query f i := by
  simp only [calledFunction, always_bind, always_record, always_ofExcept]
  cases htarget : callTarget s.record.tx with
  | error fault => exact ⟨.refl s, fun _ h => by cases h⟩
  | ok target =>
    obtain ⟨a, selector⟩ := target
    obtain ⟨hdestination, hselector⟩ := callTarget_eq_ok htarget
    refine (looksUp_interfaceOf a).mono fun r s1 hpost => ?_
    obtain ⟨h1, hcached⟩ := hpost
    cases r with
    | error fault => exact ⟨h1, fun _ h => by cases h⟩
    | ok i =>
      simp only
      cases hkey : ItemKey.ofFunctionQuery query with
      | error fault => exact ⟨h1, fun _ h => by cases h⟩
      | ok key =>
        simp only
        cases hf : i.function key query a with
        | error fault => exact ⟨h1, fun _ h => by cases h⟩
        | ok f =>
          by_cases hsel : f.selector = selector
          · simp only [hsel, ne_eq, not_true_eq_false, if_false, always_pure]
            refine ⟨h1, ?_⟩
            rintro _ ⟨⟩
            have hrecord := h1.record_eq
            refine ⟨i, ⟨a, by rw [hrecord, hdestination], hcached i rfl⟩,
              Interface.namesOnly_of_function hkey hf, ?_⟩
            rw [hrecord, hselector, hsel]
          · simp only [ne_eq, hsel, not_false_eq_true, if_true, always_bind, always_throw]
            exact ⟨h1, fun _ h => by cases h⟩

lemma callNode_eq_ok_iff {r : Record} {n : Node} :
    callNode r = .ok n ↔ r.field? .data = some n := by
  unfold callNode
  cases r.field? .data <;> simp

lemma callNode_eq_error {r : Record} {fault : QueryFault} (h : callNode r = .error fault) :
    r.field? .data = none := by
  unfold callNode at h
  cases hn : r.field? .data with
  | none => rfl
  | some n => simp [hn] at h

/-- How running a plan over call data ends: at once if the record has none, and otherwise as the
plan does. -/
lemma runCalled_cases (configure : Function → Plan CallPart) (f : Function) :
    Always (runCalled configure f) s fun r s' =>
      (∃ fault, callNode s.record = .error fault ∧ r = .error fault ∧ s' = s) ∨
      ∃ n run, callNode s.record = .ok n ∧
        (s.record.callScope f n).run (configure f) s.callTrees = run ∧ run.1.verdict = r ∧
        ((∃ fault, r = .error fault ∧ s' = s.ran f run) ∨
          r = .ok () ∧ s' = { s.ran f run with
            spans := s.spans ++ run.1.spans
            journal := (s.ran f run).journal.push
              (.noted (.callResolved f.signature run.1.spans.length)) }) := by
  simp only [runCalled, always_bind, always_record, always_ofExcept, always_get]
  cases hn : callNode s.record with
  | error fault => exact .inl ⟨fault, rfl, rfl, trivial⟩
  | ok n =>
    have hselected := (s.record.callScope f n).spans_run (configure f) s.callTrees
    generalize hrun : (s.record.callScope f n).run (configure f) s.callTrees = run at hselected
    rw [CallScope.run, Record.callScope] at hrun
    obtain ⟨picked, state⟩ := run
    simp only [hrun, always_modify, always_forM_notify, always_write, always_bind,
      always_ofExcept]
    cases hv : picked.verdict with
    | error fault => exact .inr ⟨n, (picked, state), rfl, hrun, hv, .inl ⟨fault, rfl, rfl⟩⟩
    | ok u =>
      replace hselected : state.spans = picked.spans := hselected
      simp only [Except.map, always_notify, always_gather, hselected]
      exact .inr ⟨n, (picked, state), rfl, hrun, hv, .inr ⟨trivial, rfl⟩⟩

/-- How running a plan over call data ends is settled by how the plan goes. -/
lemma always_runCalled (configure : Function → Plan CallPart) (f : Function) :
    Always (runCalled configure f) s fun r s' =>
      (∀ fault, callNode s.record = .error fault → r = .error fault ∧ s' = s) ∧
      ∀ n, callNode s.record = .ok n →
        s.EndsAs ((s.record.callScope f n).run (configure f) s.callTrees).1 r s' := by
  refine (runCalled_cases configure f).mono fun r s' hpost => ?_
  rcases hpost with ⟨fault, hnode, rfl, rfl⟩ | ⟨n, run, hnode, rfl, rfl, hend⟩
  · rw [hnode]
    refine ⟨?_, fun n h => by cases h⟩
    rintro _ ⟨⟩
    exact ⟨rfl, rfl⟩
  · rw [hnode]
    refine ⟨fun fault h => (by cases h), ?_⟩
    rintro _ ⟨⟩
    rcases hend with ⟨fault, hv, rfl⟩ | ⟨hv, rfl⟩
    · exact ⟨rfl, .inr ⟨fault, hv, rfl⟩⟩
    · exact ⟨rfl, .inl ⟨hv, rfl⟩⟩

/-- A query for the called function looks up an interface, and if it comes to a function whose
call data the record has, it runs its plan. -/
lemma always_resolveFunction (query : String) (configure : Function → Plan CallPart) :
    Always (resolveFunction query configure) s fun r s' =>
      (∃ fault, r = .error fault ∧ s.LooksUp s' ∧
        ∀ f, s.Calls query f → s.record.field? .data = none) ∨
      ∃ f n, s.RunsCall query configure f n s' ∧
        s.EndsAs ((s.record.callScope f n).run (configure f) s.callTrees).1 r s' := by
  simp only [resolveFunction, always_bind]
  refine (always_calledFunction query).with_outcome.mono fun r s1 hpost => ?_
  obtain ⟨hout, h1, hnames⟩ := hpost
  cases r with
  | error fault =>
    refine .inl ⟨fault, rfl, h1, fun f hf => ?_⟩
    rw [Calls, hout] at hf
    cases hf
  | ok f =>
    obtain ⟨i, ⟨a, ha, hi⟩, honly, hselector⟩ := hnames f rfl
    refine (runCalled_cases configure f).mono fun r s2 hpost => ?_
    rcases hpost with ⟨fault, hnode, rfl, rfl⟩ | ⟨n, run, hnode, hrun, rfl, hend⟩
    · refine .inl ⟨fault, rfl, h1, fun _ _ => ?_⟩
      rw [← h1.record_eq]
      exact callNode_eq_error hnode
    · obtain ⟨deeds, hj, hdeeds⟩ := h1.journal_eq
      obtain ⟨deeds', hj', hdeeds'⟩ := (s1.looksUp_noted run.2.notices).journal_eq
      rw [h1.record_eq, h1.callTrees_eq] at hrun
      have hdone : s.RunsCall query configure f n (s1.ran f run) := by
        refine {
          calls := congrArg Prod.fst hout
          names := ⟨i, ⟨a, ha, hi⟩, honly, hselector⟩
          node := by
            rw [← h1.record_eq]
            exact callNode_eq_ok_iff.mp hnode
          record_eq := h1.record_eq
          source_eq := h1.source_eq
          interfaces := h1.interfaces
          callTrees_eq := by rw [hrun, ran]
          journal_eq := ⟨deeds ++ deeds', [], ?_, fun d hd => ?_⟩ }
        · rw [hrun, ran, Array.toList_push, hj', hj, List.append_assoc s.journal.toList]
        · rw [List.append_nil] at hd
          rcases List.mem_append.mp hd with hd | hd
          · exact hdeeds d hd
          · exact hdeeds' d hd
      refine .inr ⟨f, n, ?_⟩
      rw [hrun]
      rcases hend with ⟨fault, hv, rfl⟩ | ⟨hv, rfl⟩
      · exact ⟨hdone, rfl, .inr ⟨fault, hv, h1.spans_eq⟩⟩
      · exact ⟨(hdone.notify _).gather _, rfl, .inl ⟨hv, by rw [h1.spans_eq]⟩⟩

end Query

namespace Session

variable {s : Session} {query : String} {f : Function} {i : Interface} {a : Address}
  {selector : Selector}

/-! ### An interface that is known -/

/-- The session once a source has given it an interface. -/
def taught (s : Session) (a : Address) (i : Interface) : Session :=
  let asked := (s.journal.push (.asked a)).push
    (.noted (.interfaceFetched a i.events.length i.functions.length))
  { s with
    interfaces := (a, i) :: s.interfaces
    journal := asked.push (.noted (.interfaceReady a (s.interfaces.length + 1))) }

lemma taught_record : (s.taught a i).record = s.record := rfl

lemma taught_callTrees : (s.taught a i).callTrees = s.callTrees := rfl

/-- A first query that names no function of the interface leaves the session with it. -/
lemma performAll_eq_taught (name : String) {source : Source} {text : String} {key : ItemKey}
    {fault : QueryFault} (htarget : Query.callTarget s.record.tx = .ok (a, selector))
    (hsource : s.source = some source) (hnew : s.interfaces.lookup a = none)
    (hanswer : source.answer s.journal.asked a = .ok text)
    (hi : s.record.library.interface? text = some i)
    (hkey : ItemKey.ofFunctionQuery query = .ok key)
    (hnone : i.function key query a = .error fault) :
    s.performAll [.functionArgument query name] = s.taught a i := by
  have hcalled : Always (Query.calledFunction query) s fun r s' =>
      r = .error fault ∧ s' = s.taught a i := by
    simp only [Query.calledFunction, always_bind, Query.always_record, always_ofExcept, htarget,
      Query.interfaceOf, always_get, hsource, hnew, Query.fetch, Query.always_write, hanswer, hi,
      Query.always_notify, always_modify, always_pure, hkey, hnone, true_and]
    rw [← hsource]
    rfl
  show (outcome (Query.calledFunction query >>= _) s).2 = _
  rw [outcome_bind_error (Prod.ext hcalled.1 hcalled.2)]
  rfl

/-- So does one in a session that has been opened, and whose source has one text for all
contracts. -/
lemma performAll_eq_taught_of_ofEncoded {tx : Transaction} {receipt : Receipt} {encoded : Bytes}
    {settings : Settings} {library : Library} {text : String} {key : ItemKey} {fault : QueryFault}
    (name : String) (hopened : Session.ofEncoded tx receipt encoded settings library = .ok s)
    (htarget : Query.callTarget tx = .ok (a, selector)) (hi : library.interface? text = some i)
    (hkey : ItemKey.ofFunctionQuery query = .ok key)
    (hnone : i.function key query a = .error fault) :
    (s.performAll [.setSource (.table [] (some text))]).performAll
        [.functionArgument query name] =
      (s.performAll [.setSource (.table [] (some text))]).taught a i := by
  obtain ⟨htx, -, -, -, hlibrary⟩ := record_of_ofEncoded hopened
  obtain ⟨notices, -, hfresh⟩ := ofEncoded_inv hopened
  have hnew : s.interfaces = [] := by rw [hfresh]
  refine performAll_eq_taught (s := s.performAll [.setSource (.table [] (some text))]) name
    (htx ▸ htarget) rfl (congrArg (List.lookup a) hnew) rfl ?_ hkey hnone
  show s.record.library.interface? text = some i
  rw [hlibrary, hi]

/-- A query comes to the one function that it names in an interface that is known. -/
lemma calls_of_known (hsource : s.source.isSome = true)
    (htarget : Query.callTarget s.record.tx = .ok (a, selector))
    (hi : s.interfaces.lookup a = some i) (honly : i.NamesOnly query f)
    (hsel : f.selector = selector) : s.Calls query f := by
  obtain ⟨source, hsource⟩ := Option.isSome_iff_exists.mp hsource
  obtain ⟨key, hkey, hfilter⟩ := honly
  have hf : i.function key query a = .ok f := by rw [Interface.function, hfilter]
  show Always (Query.calledFunction query) s fun r _ => r = .ok f
  simp only [Query.calledFunction, always_bind, Query.always_record, always_ofExcept, htarget,
    Query.interfaceOf, always_get, hsource, hi, Query.always_notify, always_pure, hkey, hf, hsel,
    ne_eq, not_true_eq_false, if_false]

end Session

end AbiSpan
