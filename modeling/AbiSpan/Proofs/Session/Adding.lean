import AbiSpan.Session.Operation
import AbiSpan.Proofs.Session.Calling
import AbiSpan.Proofs.Session.EventPicks

/-!
What an operation adds to a session.

The ranges that a session hands out are seen as pieces, each with where it comes from. `Adds`
says which pieces an operation gathers if it succeeds, and `Performs` what any operation does to
a session, failing or not: it gathers those pieces or none, and of what the session knew it
forgets nothing.
-/

namespace AbiSpan

/-- A range that was gathered, and where it comes from. -/
inductive Piece where
  /-- A field of a fixed place, or the selector at the front of the call data. -/
  | fixed (span : Span)
  /-- Given by the caller. -/
  | manual (span : Span)
  | log (scope : LogScope) (part : LogPart) (span : Span)
  | call (scope : CallScope) (part : CallPart) (span : Span)

namespace Piece

def span : Piece → Span
  | .fixed span | .manual span | .log _ _ span | .call _ _ span => span

end Piece

/-- The plan for an occurrence, run over its log, succeeds and gathers these pieces. -/
def Record.PlansLog (r : Record) (configure : Occurrence → Plan LogPart) (o : Occurrence)
    (part : List Piece) : Prop :=
  ∃ n gathered state, Query.logNode r o.index = .ok n ∧
    Plan.Gathers (r.scope o n).pick (configure o) { located := none } [] (.ok ()) state gathered ∧
    part = gathered.map fun e => .log (r.scope o n) e.1 e.2

namespace Session

/-- A search finds these occurrences. -/
def Finds (s : Session) (query : String) (choose : LogChoice) (os : List Occurrence) : Prop :=
  (outcome (Query.search query choose) s).1 = .ok os

/-- The pieces that an operation gathers in a session, if it succeeds. -/
inductive Adds (s : Session) : Operation → List Piece → Prop
  | staticField {f : Field} {span : Span} : Query.staticSpan s.record f = .ok span →
      Adds s (.staticField f) [.fixed span]
  | manual {span : Span} : Adds s (.manual span) [.manual span]
  | functionSignature {span : Span} : Query.selectorSpan s.record = .ok span →
      Adds s .functionSignature [.fixed span]
  | noEvent {query : String} {choose : LogChoice} {configure : Occurrence → Plan LogPart} :
      s.Finds query choose [] → Adds s (.resolveEvent query choose configure) []
  | event {query : String} {choose : LogChoice} {configure : Occurrence → Plan LogPart}
      {o : Occurrence} {part : List Piece} : s.Finds query choose [o] →
      s.record.PlansLog configure o part → Adds s (.resolveEvent query choose configure) part
  /-- The logs are taken in the order of the receipt. -/
  | allEvents {query : String} {choose : LogChoice} {configure : Occurrence → Plan LogPart}
      {os : List Occurrence} {parts : List (List Piece)} : s.Finds query choose os →
      os.Pairwise (·.index < ·.index) → List.Forall₂ (s.record.PlansLog configure) os parts →
      Adds s (.resolveAllEvents query choose configure) parts.flatten
  | eventSignature {query : String} {choose : LogChoice} {part : List Piece} :
      Adds s (.resolveEvent query choose fun _ => .single .signature) part →
      Adds s (.eventSignature query choose) part
  | eventArgument {query name : String} {choose : LogChoice} {part : List Piece} :
      Adds s (.resolveEvent query choose fun _ => .single (.argument name)) part →
      Adds s (.eventArgument query choose name) part
  | call {query : String} {configure : Function → Plan CallPart} {f : Function} {n : Node}
      {state : PickState CallScope.Located} {gathered : List (CallPart × Span)} :
      s.Calls query f → s.record.field? .data = some n →
      Plan.Gathers (s.record.callScope f n).pick (configure f) { located := s.callTrees } []
        (.ok ()) state gathered →
      Adds s (.resolveFunction query configure)
        (gathered.map fun e => .call (s.record.callScope f n) e.1 e.2)
  | functionArgument {query name : String} {part : List Piece} :
      Adds s (.resolveFunction query fun _ => .single (.argument name)) part →
      Adds s (.functionArgument query name) part
  | setSource {source : Source} : Adds s (.setSource source) []

/-- The entry tells where the arguments of a function of the called contract lie. -/
def Justifies (s : Session) (entry : Selector × List Node) : Prop :=
  ∃ i f n, s.Recalls i ∧ f ∈ i.functions ∧ f.selector = entry.1 ∧
    s.record.field? .data = some n ∧ (s.record.callScope f n).Locates entry.2

/-- The session `s'` is `s` after an operation: over the same record, it knows what it knew, and
new call trees are justified. -/
structure Moves (s s' : Session) : Prop where
  record_eq : s'.record = s.record
  interfaces : Gains s.interfaces s'.interfaces
  callTrees : Gains s.callTrees s'.callTrees
  learnt : ∀ entry ∈ s'.callTrees, entry ∈ s.callTrees ∨ s'.Justifies entry

/-- An operation, begun in session `s`, ends with `r` in `s'`. -/
structure Performs (s : Session) (op : Operation) (r : Except QueryFault Unit) (s' : Session) :
    Prop extends s.Moves s' where
  source_eq : (∀ source, op ≠ .setSource source) → s'.source = s.source
  fails : ∀ fault, r = .error fault → s'.spans = s.spans
  adds : r = .ok () → ∃ part, s.Adds op part ∧ s'.spans = s.spans ++ part.map Piece.span

variable {s s' s'' : Session} {op : Operation} {part : List Piece}

lemma Justifies.mono {entry : Selector × List Node} (h : s.Justifies entry)
    (hrecord : s'.record = s.record) (hgains : Gains s.interfaces s'.interfaces) :
    s'.Justifies entry := by
  obtain ⟨i, f, n, hi, hf, hselector, hn, hloc⟩ := h
  exact ⟨i, f, n, hi.mono hrecord hgains, hf, hselector, by rwa [hrecord], by rwa [hrecord]⟩

namespace Moves

lemma refl (s : Session) : s.Moves s := ⟨rfl, .refl _, .refl _, fun _ => .inl⟩

lemma trans (h : s.Moves s') (h' : s'.Moves s'') : s.Moves s'' := by
  refine ⟨h'.record_eq.trans h.record_eq, h.interfaces.trans h'.interfaces,
    h.callTrees.trans h'.callTrees, fun entry hentry => ?_⟩
  rcases h'.learnt entry hentry with hentry | hnew
  · exact (h.learnt entry hentry).imp_right fun hnew => hnew.mono h'.record_eq h'.interfaces
  · exact .inr hnew

end Moves

lemma Stays.moves (h : s.Stays s') : s.Moves s' where
  record_eq := h.record_eq
  interfaces := h.interfaces
  callTrees := by
    rw [h.callTrees_eq]
    exact .refl _
  learnt entry hentry := .inl (by rwa [h.callTrees_eq] at hentry)

lemma RunsCall.moves {query : String} {configure : Function → Plan CallPart} {f : Function}
    {n : Node} (h : s.RunsCall query configure f n s') : s.Moves s' := by
  have hfills := CallScope.fills_run (s := s.record.callScope f n) (configure f) s.callTrees
  rw [← h.callTrees_eq] at hfills
  obtain ⟨i, hi, honly, -⟩ := h.names
  -- A plan adds one entry at most, and only under a selector that had none.
  refine ⟨h.record_eq, h.interfaces, ?_, fun entry hentry => ?_⟩
  · rcases hfills with heq | ⟨nodes, hnone, -, heq⟩
    · rw [heq]
      exact .refl _
    · rw [heq]
      exact .cons hnone nodes
  · rcases hfills with heq | ⟨nodes, -, hloc, heq⟩
    · rw [heq] at hentry
      exact .inl hentry
    · rw [heq] at hentry
      rcases List.mem_cons.mp hentry with rfl | hentry
      · exact .inr ⟨i, f, n, hi, honly.mem, rfl, by rw [h.record_eq, h.node], by rwa [h.record_eq]⟩
      · exact .inl hentry

/-! ### Each operation -/

lemma performs_error (h : s.Stays s') (op : Operation) (fault : QueryFault) :
    s.Performs op (.error fault) s' :=
  { h.moves with
    source_eq := fun _ => h.source_eq
    fails := fun _ _ => h.spans_eq
    adds := fun hr => by cases hr }

lemma performs_gather (h : s.Stays s') (hadds : s.Adds op part) :
    s.Performs op (.ok ()) { s' with spans := s'.spans ++ part.map Piece.span } := by
  have hmoves := h.moves
  refine ⟨⟨hmoves.record_eq, hmoves.interfaces, hmoves.callTrees, hmoves.learnt⟩,
    fun _ => h.source_eq, fun _ hr => (by cases hr), fun _ => ⟨part, hadds, ?_⟩⟩
  rw [h.spans_eq]

/-- An operation that stands for another does what that does. -/
lemma Performs.of_adds {op' : Operation} {r : Except QueryFault Unit} (h : s.Performs op r s')
    (hop : ∀ source, op ≠ .setSource source) (hadds : ∀ part, s.Adds op part → s.Adds op' part) :
    s.Performs op' r s' :=
  { h with
    source_eq := fun _ => h.source_eq hop
    adds := fun hr => by
      obtain ⟨part, hpart, hspans⟩ := h.adds hr
      exact ⟨part, hadds part hpart, hspans⟩ }

end Session

namespace Query

open Session

variable {s : Session}

lemma always_pickLog_gathers (configure : Occurrence → Plan LogPart) (o : Occurrence) :
    Always (pickLog configure o) s fun r s' => s.Stays s' ∧ ∀ spans, r = .ok spans →
      ∃ part, s.record.PlansLog configure o part ∧ spans = part.map Piece.span := by
  refine (pickLog_cases configure o).mono fun r s' hpost => ?_
  rcases hpost with ⟨fault, -, rfl, rfl⟩ | ⟨n, picked, state, hn, hrun, rfl, rfl⟩
  · exact ⟨.refl s', fun _ h => by cases h⟩
  · obtain ⟨gathered, hgathers, hspans, -⟩ :=
      (s.record.scope o n).appends_pick.runsStepwise (configure o) { located := none }
    rw [hrun] at hgathers hspans
    refine ⟨(s.looksUp_noted state.notices).toStays.write _, fun spans h => ?_⟩
    cases hv : picked.verdict with
    | error fault => simp [hv, Except.map] at h
    | ok u =>
      simp only [hv, Except.map, Except.ok.injEq] at h
      rw [hv] at hgathers
      refine ⟨_, ⟨n, gathered, state, hn, hgathers, rfl⟩, ?_⟩
      rw [List.map_map, ← h, ← hspans]
      rfl

lemma always_pickLogs_gathers (configure : Occurrence → Plan LogPart) (os : List Occurrence) :
    Always (pickLogs configure os) s fun r s' => s.Stays s' ∧ ∀ spans, r = .ok spans →
      ∃ parts, List.Forall₂ (s.record.PlansLog configure) os parts ∧
        spans = parts.flatten.map Piece.span := by
  induction os generalizing s with
  | nil =>
    refine ⟨.refl s, ?_⟩
    rintro _ ⟨⟩
    exact ⟨[], .nil, rfl⟩
  | cons o os ih =>
    simp only [pickLogs, always_bind]
    refine (always_pickLog_gathers configure o).mono fun r s1 hpost => ?_
    obtain ⟨h1, hfirst⟩ := hpost
    cases r with
    | error fault => exact ⟨h1, fun _ h => by cases h⟩
    | ok spans =>
      refine ih.mono fun r s2 hpost => ?_
      obtain ⟨h2, hrest⟩ := hpost
      cases r with
      | error fault => exact ⟨h1.trans h2, fun _ h => by cases h⟩
      | ok rest =>
        obtain ⟨part, hpart, hspans⟩ := hfirst spans rfl
        obtain ⟨parts, hparts, hmore⟩ := hrest rest rfl
        rw [h1.record_eq] at hparts
        refine ⟨h1.trans h2, ?_⟩
        rintro _ ⟨⟩
        refine ⟨part :: parts, .cons hpart hparts, ?_⟩
        rw [List.flatten_cons, List.map_append, ← hspans, ← hmore]

lemma performs_resolveEvent (query : String) (choose : LogChoice)
    (configure : Occurrence → Plan LogPart) :
    Always (resolveEvent query choose configure) s
      (s.Performs (.resolveEvent query choose configure)) := by
  simp only [resolveEvent, always_bind]
  refine (always_search query choose).with_outcome.mono fun r s1 hpost => ?_
  obtain ⟨hout, h1, -⟩ := hpost
  cases r with
  | error fault => exact performs_error h1.toStays _ fault
  | ok os =>
    have hfinds : s.Finds query choose os := congrArg Prod.fst hout
    rcases os with _ | ⟨o, _ | ⟨o', os⟩⟩
    · have hadds : s.Adds (.resolveEvent query choose configure) [] := .noEvent hfinds
      have hdone := performs_gather (h1.toStays.write (.noted (.noLogMatched query))) hadds
      rwa [List.map_nil, List.append_nil] at hdone
    · simp only [always_bind]
      refine (always_pickLog_gathers configure o).mono fun r s2 hpost => ?_
      obtain ⟨h2, hpart⟩ := hpost
      cases r with
      | error fault => exact performs_error (h1.toStays.trans h2) _ fault
      | ok spans =>
        obtain ⟨part, hplans, rfl⟩ := hpart spans rfl
        rw [h1.record_eq] at hplans
        exact performs_gather (h1.toStays.trans h2) (.event hfinds hplans)
    · exact performs_error h1.toStays _ _

lemma performs_resolveAllEvents (query : String) (choose : LogChoice)
    (configure : Occurrence → Plan LogPart) :
    Always (resolveAllEvents query choose configure) s
      (s.Performs (.resolveAllEvents query choose configure)) := by
  simp only [resolveAllEvents, always_bind]
  refine (always_search query choose).with_outcome.mono fun r s1 hpost => ?_
  obtain ⟨hout, h1, hfound⟩ := hpost
  cases r with
  | error fault => exact performs_error h1.toStays _ fault
  | ok os =>
    simp only [always_notify]
    refine (always_pickLogs_gathers configure os).mono fun r s2 hpost => ?_
    obtain ⟨h2, hparts⟩ := hpost
    have hstays := (h1.toStays.write (.noted (.logsMatched query os.length))).trans h2
    cases r with
    | error fault => exact performs_error hstays _ fault
    | ok spans =>
      obtain ⟨parts, hplans, rfl⟩ := hparts spans rfl
      rw [show Session.record { s1 with journal := _ } = s.record from h1.record_eq] at hplans
      exact performs_gather hstays (.allEvents (congrArg Prod.fst hout) (hfound os rfl).2 hplans)

lemma performs_resolveFunction (query : String) (configure : Function → Plan CallPart) :
    Always (resolveFunction query configure) s
      (s.Performs (.resolveFunction query configure)) := by
  refine (always_resolveFunction query configure).mono fun r s' hpost => ?_
  rcases hpost with ⟨fault, rfl, h, -⟩ | ⟨f, n, hruns, hverdict, hend⟩
  · exact performs_error h.toStays _ fault
  · refine { hruns.moves with
      source_eq := fun _ => hruns.source_eq
      fails := fun fault hr => ?_
      adds := fun hr => ?_ }
    · rcases hend with ⟨rfl, -⟩ | ⟨_, -, hspans⟩
      · cases hr
      · exact hspans
    · subst hr
      rcases hend with ⟨-, hspans⟩ | ⟨_, hr, -⟩
      · obtain ⟨gathered, hgathers, hmap⟩ :=
          CallScope.gathers_run (s := s.record.callScope f n) (configure f) s.callTrees
        rw [hverdict] at hgathers
        refine ⟨_, .call hruns.calls hruns.node hgathers, ?_⟩
        rw [hspans, ← hmap, List.map_map]
        rfl
      · cases hr

lemma performs_query (op : Operation) : Always op.query s (s.Performs op) := by
  cases op with
  | staticField f =>
    simp only [Operation.query, staticField, always_bind, always_record, always_ofExcept]
    cases hspan : staticSpan s.record f with
    | error fault => exact performs_error (.refl s) _ fault
    | ok span => exact performs_gather (.refl s) (.staticField hspan)
  | manual span => exact performs_gather (.refl s) .manual
  | functionSignature =>
    simp only [Operation.query, functionSignature, always_bind, always_record, always_ofExcept]
    cases hspan : selectorSpan s.record with
    | error fault => exact performs_error (.refl s) _ fault
    | ok span => exact performs_gather (.refl s) (.functionSignature hspan)
  | resolveEvent query choose configure => exact performs_resolveEvent query choose configure
  | resolveAllEvents query choose configure =>
    exact performs_resolveAllEvents query choose configure
  | eventSignature query choose =>
    exact (performs_resolveEvent query choose _).mono fun _ _ h =>
      h.of_adds (fun _ => by simp) fun _ => .eventSignature
  | eventArgument query choose name =>
    exact (performs_resolveEvent query choose _).mono fun _ _ h =>
      h.of_adds (fun _ => by simp) fun _ => .eventArgument
  | resolveFunction query configure => exact performs_resolveFunction query configure
  | functionArgument query name =>
    have h := performs_resolveFunction (s := s) query fun _ => Plan.single (.argument name)
    exact h.mono fun _ _ h => h.of_adds (fun _ => by simp) fun _ => .functionArgument
  | setSource source =>
    have hmoves := (Stays.refl s).moves
    show s.Performs (.setSource source) (.ok ()) { s with source := some source }
    exact {
      record_eq := rfl
      interfaces := hmoves.interfaces
      callTrees := hmoves.callTrees
      learnt := fun _ => .inl
      source_eq := fun hne => absurd rfl (hne source)
      fails := fun _ hr => by cases hr
      adds := fun _ => ⟨[], .setSource, (List.append_nil _).symm⟩ }

end Query

/-! ### Whole runs -/

namespace Session

/-- The operations of a run, each with the session that it is performed in. -/
def steps (s : Session) : List Operation → List (Session × Operation)
  | [] => []
  | op :: ops => (s, op) :: (s.perform op).2.steps ops

/-- The pieces that an operation contributes to the session that it is performed in. -/
inductive Contributes (s : Session) (op : Operation) : List Piece → Prop
  | added {part : List Piece} : (s.perform op).1 = .ok () → s.Adds op part → Contributes s op part
  | failed {fault : QueryFault} : (s.perform op).1 = .error fault → Contributes s op []

variable {s : Session}

lemma performs (s : Session) (op : Operation) : s.Performs op (s.perform op).1 (s.perform op).2 :=
  Query.performs_query op

lemma exists_contributes (s : Session) (op : Operation) :
    ∃ part, s.Contributes op part ∧ (s.perform op).2.spans = s.spans ++ part.map Piece.span := by
  have hperforms := s.performs op
  cases hr : (s.perform op).1 with
  | error fault => exact ⟨[], .failed hr, by simpa using hperforms.fails fault hr⟩
  | ok u =>
    obtain ⟨part, hadds, hspans⟩ := hperforms.adds hr
    exact ⟨part, .added hr hadds, hspans⟩

/-- What a session has gathered at the end of a run is what its operations contribute. -/
lemma exists_parts (s : Session) (ops : List Operation) : ∃ parts,
    List.Forall₂ (fun step part => step.1.Contributes step.2 part) (s.steps ops) parts ∧
      (s.performAll ops).spans = s.spans ++ parts.flatten.map Piece.span := by
  -- The session is general: each operation begins where the one before it ended.
  induction ops generalizing s with
  | nil => exact ⟨[], .nil, (List.append_nil _).symm⟩
  | cons op ops ih =>
    obtain ⟨part, hpart, hspans⟩ := s.exists_contributes op
    obtain ⟨parts, hparts, hrest⟩ := ih (s.perform op).2
    refine ⟨part :: parts, .cons hpart hparts, ?_⟩
    calc (s.performAll (op :: ops)).spans
        = (s.perform op).2.spans ++ parts.flatten.map Piece.span := hrest
      _ = s.spans ++ (part :: parts).flatten.map Piece.span := by
        rw [hspans, List.flatten_cons, List.map_append, List.append_assoc]

lemma moves_performAll (s : Session) (ops : List Operation) : s.Moves (s.performAll ops) := by
  induction ops generalizing s with
  | nil => exact .refl s
  | cons op ops ih => exact (s.performs op).toMoves.trans (ih _)

/-- Every operation of a run is performed in a session that the run has led to. -/
lemma moves_of_mem_steps {ops : List Operation} {step : Session × Operation}
    (h : step ∈ s.steps ops) : s.Moves step.1 := by
  induction ops generalizing s with
  | nil => cases h
  | cons op ops ih =>
    rcases List.mem_cons.mp h with rfl | h
    · exact .refl s
    · exact (s.performs op).toMoves.trans (ih h)

/-- **Failed operations are atomic, and the others only append.** An operation that fails leaves
the ranges as they are; one that succeeds appends just the pieces that it adds; and none loses
or replaces anything else that the session knows. So what is built at the end of a run is what its
operations contributed, in order. Likewise a pick of a part selects what it comes to, behind what
has been selected before, and nothing if it fails, and so a plan whose picks fail goes on with the
ranges gathered so far. -/
theorem performAll_appends (s : Session) :
    (∀ op, s.Performs op (s.perform op).1 (s.perform op).2) ∧
      (∀ ops, ∃ parts,
        List.Forall₂ (fun step part => step.1.Contributes step.2 part) (s.steps ops) parts ∧
          (s.performAll ops).build = s.spans ++ parts.flatten.map Piece.span) ∧
      (∀ scope : LogScope, Plan.Appends scope.pick ∧
        ∀ plan state, Plan.RunsStepwise plan scope.pick state) ∧
      ∀ scope : CallScope, Plan.Appends scope.pick ∧
        ∀ plan state, Plan.RunsStepwise plan scope.pick state :=
  ⟨s.performs, s.exists_parts, fun scope => ⟨scope.appends_pick, scope.appends_pick.runsStepwise⟩,
    fun scope => ⟨scope.appends_pick, scope.appends_pick.runsStepwise⟩⟩

end Session

end AbiSpan
