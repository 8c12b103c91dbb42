import AbiSpan.Proofs.Session.Questions

/-!
What each operation asks the source about.

A lookup asks only about a contract that is not known. So the questions of a query for events
follow its candidates, each emitter where it occurs first; a query for functions asks about the
called contract at most; and nothing else that a session does asks anything.
-/

namespace AbiSpan

namespace Query

open Session

variable {s : Session}

/-! ### What a lookup asks -/

section Question

variable {q : Question} {α : Type}

lemma ends_singleton {r : Except QueryFault α} (h : q.learns? = none → r = .error q.fault) :
    ∀ front q' back, [q] = front ++ q' :: back → q'.learns? = none →
      back = [] ∧ r = .error q'.fault := by
  intro front q' back heq hq'
  rcases front with _ | ⟨q'', front⟩
  · rw [List.nil_append, List.cons.injEq] at heq
    obtain ⟨rfl, hback⟩ := heq
    exact ⟨hback.symm, h hq'⟩
  · simp at heq

/-- A question whose answer is no interface. -/
lemma inquires_miss (hq : [q] = s.answers [q.address]) (hunknown : q.address ∉ s.known)
    (hlearns : q.learns? = none) : s.Inquires [q] (.error q.fault : Except QueryFault α)
      { s with journal := s.journal.push (.asked q.address) } where
  interfaces_eq := by simp [Question.gain?, hlearns]
  unknown q' hq' := by rwa [List.mem_singleton.mp hq']
  once := List.pairwise_singleton _ _
  journal_eq := by
    refine ⟨[.asked q.address], by simp, rfl, ?_, countsFrom_of_no_report (by simp)⟩
    simp [Question.gain?, hlearns, Deed.fetched?]
  record_eq := rfl
  source_eq := rfl
  answers_eq := hq
  ends := ends_singleton fun _ => rfl

/-- A question whose answer is an interface, which is kept. -/
lemma inquires_hit {i : Interface} (hq : [q] = s.answers [q.address])
    (hunknown : q.address ∉ s.known) (hlearns : q.learns? = some i) (events functions : ℕ)
    (r : Except QueryFault α) : s.Inquires [q] r { s with
      interfaces := (q.address, i) :: s.interfaces
      journal := (s.journal.push (.asked q.address)).push
        (.noted (.interfaceFetched q.address events functions)) } where
  interfaces_eq := by simp [Question.gain?, hlearns]
  unknown q' hq' := by rwa [List.mem_singleton.mp hq']
  once := List.pairwise_singleton _ _
  journal_eq := by
    refine ⟨[.asked q.address, .noted (.interfaceFetched q.address events functions)], by simp,
      rfl, ?_, countsFrom_of_no_report (by simp)⟩
    rw [List.filterMap_cons_some (Question.gain?_of_learns hlearns)]
    rfl
  record_eq := rfl
  source_eq := rfl
  answers_eq := hq
  ends := ends_singleton fun h => by rw [hlearns] at h; cases h

end Question

/-- An interface that is known is reported as available. -/
lemma learns_ready {a : Address} (ha : a ∈ s.known) : s.Learns [] { s with
    journal := s.journal.push (.noted (.interfaceReady a s.interfaces.length)) } where
  interfaces_eq := rfl
  unknown _ hq := by cases hq
  once := .nil
  journal_eq := by
    refine ⟨[.noted (.interfaceReady a s.interfaces.length)], by simp, rfl, rfl, ?_⟩
    intro before a' n after heq
    rcases before with _ | ⟨d, before⟩
    · rw [List.nil_append, List.cons.injEq] at heq
      obtain ⟨heq, -⟩ := heq
      cases heq
      simp [known, show a ∈ s.interfaces.map (·.1) from ha]
    · simp at heq

lemma inquires_interfaceOf (a : Address) : Always (interfaceOf a) s fun r s' =>
    ∃ qs, s.Inquires qs r s' ∧ Covers s.known [a] qs r := by
  refine (lookup_interfaceOf a).mono fun r s' hlookup => ?_
  have hanswers {source : Source} (hsource : s.source = some source) :
      [s.record.library.question a (source.answer s.journal.asked a)] = s.answers [a] := by
    simp [answers, hsource, Source.answers]
  have hseen (hnone : s.interfaces.lookup a = none) : firstSeen s.known [a] = [a] := by
    simp [firstSeen, lookup_eq_none_iff.mp hnone]
  cases hlookup with
  | noSource _ => exact ⟨[], (Silent.refl s).inquires _, List.nil_prefix, fun _ h => by cases h⟩
  | cached _ hi =>
    have ha : a ∈ s.known := by
      by_contra hnot
      rw [lookup_eq_none_iff.mpr hnot] at hi
      cases hi
    have hhit : s.Learns [] { s with
        journal := s.journal.push (.noted (.interfaceCached a)) } := by
      have hj : (s.journal.push (.noted (.interfaceCached a))).toList =
          s.journal.toList ++ [.noted (.interfaceCached a)] := by simp
      exact .of_interfaces_eq rfl hj (by simp [Deed.ofLookup])
    refine ⟨[], (hhit.trans (learns_ready ha)).inquires rfl rfl _, List.nil_prefix, fun _ _ => ?_⟩
    simp [firstSeen, ha]
  | @failed source fault hsource hnone hanswer =>
    have hq := hanswers hsource
    rw [hanswer] at hq
    refine ⟨_, inquires_miss hq (lookup_eq_none_iff.mp hnone) rfl, by simp [hseen hnone],
      fun _ h => by cases h⟩
  | @garbled source text hsource hnone hanswer hi =>
    have hq := hanswers hsource
    rw [hanswer] at hq
    refine ⟨_, inquires_miss hq (lookup_eq_none_iff.mp hnone) hi, by simp [hseen hnone],
      fun _ h => by cases h⟩
  | @fetched source text i hsource hnone hanswer hi =>
    have hq := hanswers hsource
    rw [hanswer] at hq
    have hhit := inquires_hit hq (lookup_eq_none_iff.mp hnone) hi i.events.length
      i.functions.length (.ok i : Except QueryFault Interface)
    refine ⟨_, hhit.bind ((learns_ready ?_).inquires rfl rfl (.ok i)), by simp [hseen hnone],
      fun _ _ => by simp [hseen hnone]⟩
    simp [known]

/-! ### What whole queries ask -/

lemma inquires_examine (key : ItemKey) (choose : LogChoice) (c : Candidate) :
    Always (examine key choose c) s fun r s' =>
      ∃ qs, s.Inquires qs r s' ∧ Covers s.known [c.log.address] qs r := by
  simp only [examine, always_bind, always_record]
  refine (inquires_interfaceOf c.log.address).mono fun r s1 hpost => ?_
  obtain ⟨qs, h1, hfront, hall⟩ := hpost
  cases r with
  | error fault => exact ⟨qs, h1.of_error, hfront, fun _ h => by cases h⟩
  | ok i =>
    have hcovers := hall i rfl
    cases ho : i.occurrence? s1.record.library key c.log c.hash with
    | error fault =>
      simp only [ho, always_throw]
      exact ⟨qs, h1.of_ok _, Covers.of_eq hcovers _⟩
    | ok found =>
      cases found with
      | none =>
        simp only [ho, always_pure]
        exact ⟨qs, h1.of_ok _, Covers.of_eq hcovers _⟩
      | some found =>
        simp only [ho, always_bind, always_write, always_pure]
        exact ⟨qs, h1.silent ((Silent.refl s1).write rfl) _, Covers.of_eq hcovers _⟩

/-- The questions follow the candidates; an address that was answered for is not asked about
again. -/
lemma inquires_examineAll (key : ItemKey) (choose : LogChoice) (cs : List Candidate) :
    Always (examineAll key choose cs) s fun r s' =>
      ∃ qs, s.Inquires qs r s' ∧ Covers s.known (cs.map (·.log.address)) qs r := by
  induction cs generalizing s with
  | nil => exact ⟨[], (Silent.refl s).inquires _, Covers.of_eq rfl _⟩
  | cons c cs ih =>
    simp only [examineAll, always_bind]
    refine (inquires_examine key choose c).mono fun r s1 hpost => ?_
    obtain ⟨qs, h1, hcovers⟩ := hpost
    cases r with
    | error fault => exact ⟨qs, h1.of_error, Covers.of_error hcovers _⟩
    | ok found =>
      have hfirst := hcovers.2 found rfl
      have hknown : s1.known = (firstSeen s.known [c.log.address]).reverse ++ s.known := by
        rw [h1.known_eq, h1.entries_eq, hfirst]
      refine ih.mono fun r s2 hpost => ?_
      obtain ⟨qs', h2, hcovers'⟩ := hpost
      rw [hknown] at hcovers'
      cases r with
      | error fault => exact ⟨_, h1.bind h2, hcovers'.cons hfirst⟩
      | ok os => exact ⟨_, h1.bind (h2.of_ok _), Covers.of_eq ((hcovers'.cons hfirst).2 os rfl) _⟩

lemma inquires_search (query : String) (choose : LogChoice) :
    Always (search query choose) s fun r s' => ∃ qs, s.Inquires qs r s' ∧
      Covers s.known (s.record.receipt.emitters query) qs r := by
  simp only [search, always_bind, always_ofExcept, Receipt.emitters]
  cases ItemKey.ofEventQuery query with
  | error fault => exact ⟨[], (Silent.refl s).inquires _, Covers.of_eq rfl _⟩
  | ok key => exact inquires_examineAll key choose _

lemma silent_pickLog (configure : Occurrence → Plan LogPart) (o : Occurrence) :
    Always (pickLog configure o) s fun _ s' => s.Silent s' := by
  refine (pickLog_cases configure o).mono fun r s' hpost => ?_
  rcases hpost with ⟨fault, -, -, rfl⟩ | ⟨n, picked, state, -, hrun, -, rfl⟩
  · exact .refl s'
  · have hquiet := Plan.quiet_run (s.record.scope o n).quiet_pick (configure o) none
    rw [hrun] at hquiet
    exact (Silent.noted s hquiet).write rfl

lemma silent_pickLogs (configure : Occurrence → Plan LogPart) (os : List Occurrence) :
    Always (pickLogs configure os) s fun _ s' => s.Silent s' := by
  induction os generalizing s with
  | nil => exact .refl s
  | cons o os ih =>
    simp only [pickLogs, always_bind]
    refine (silent_pickLog configure o).mono fun r s1 h1 => ?_
    cases r with
    | error fault => exact h1
    | ok spans =>
      refine ih.mono fun r s2 h2 => ?_
      cases r <;> exact h1.trans h2

/-- What a query for events asks, it asks while it searches. -/
structure Searches (query : String) (choose : LogChoice) (s : Session) (qs : List Question)
    (r : Except QueryFault Unit) (s' : Session) : Prop extends s.Inquires qs r s' where
  covers : Covers s.known (s.record.receipt.emitters query) qs (outcome (search query choose) s).1
  finds : r = .ok () → ∃ os, s.Finds query choose os

lemma searches_resolveEvent (query : String) (choose : LogChoice)
    (configure : Occurrence → Plan LogPart) : Always (resolveEvent query choose configure) s
      fun r s' => ∃ qs, Searches query choose s qs r s' := by
  simp only [resolveEvent, always_bind]
  refine (inquires_search query choose).with_outcome.mono fun r s1 hpost => ?_
  obtain ⟨hout, qs, h1, hcovers⟩ := hpost
  have hfirst := congrArg Prod.fst hout
  cases r with
  | error fault =>
    exact ⟨qs, { h1.of_error with covers := hfirst ▸ hcovers, finds := fun h => by cases h }⟩
  | ok os =>
    have hdone : ∀ r s2, s1.Silent s2 → Searches query choose s qs r s2 := fun r s2 h2 =>
      { h1.silent h2 r with covers := hfirst ▸ hcovers, finds := fun _ => ⟨os, hfirst⟩ }
    rcases os with _ | ⟨o, _ | ⟨o', os⟩⟩
    · exact ⟨qs, hdone _ _ ((Silent.refl s1).write rfl)⟩
    · simp only [always_bind]
      refine (silent_pickLog configure o).mono fun r s2 h2 => ?_
      cases r with
      | error fault => exact ⟨qs, hdone _ _ h2⟩
      | ok spans => exact ⟨qs, hdone _ _ (h2.gather spans)⟩
    · exact ⟨qs, hdone _ _ (.refl s1)⟩

lemma searches_resolveAllEvents (query : String) (choose : LogChoice)
    (configure : Occurrence → Plan LogPart) : Always (resolveAllEvents query choose configure) s
      fun r s' => ∃ qs, Searches query choose s qs r s' := by
  simp only [resolveAllEvents, always_bind]
  refine (inquires_search query choose).with_outcome.mono fun r s1 hpost => ?_
  obtain ⟨hout, qs, h1, hcovers⟩ := hpost
  have hfirst := congrArg Prod.fst hout
  cases r with
  | error fault =>
    exact ⟨qs, { h1.of_error with covers := hfirst ▸ hcovers, finds := fun h => by cases h }⟩
  | ok os =>
    have hdone : ∀ r s2, s1.Silent s2 → Searches query choose s qs r s2 := fun r s2 h2 =>
      { h1.silent h2 r with covers := hfirst ▸ hcovers, finds := fun _ => ⟨os, hfirst⟩ }
    simp only [always_notify]
    refine (silent_pickLogs configure os).mono fun r s2 h2 => ?_
    have hmatched := (Silent.refl s1).write (d := .noted (.logsMatched query os.length)) rfl
    have hsilent := hmatched.trans h2
    cases r with
    | error fault => exact ⟨qs, hdone _ _ hsilent⟩
    | ok spans => exact ⟨qs, hdone _ _ (hsilent.gather spans)⟩

/-- A query for functions asks about the called contract at most. -/
lemma inquires_calledFunction (query : String) : Always (calledFunction query) s fun r s' =>
    ∃ qs, s.Inquires qs r s' := by
  simp only [calledFunction, always_bind, always_record, always_ofExcept]
  cases callTarget s.record.tx with
  | error fault => exact ⟨[], (Silent.refl s).inquires _⟩
  | ok target =>
    obtain ⟨a, selector⟩ := target
    refine (inquires_interfaceOf a).mono fun r s1 hpost => ?_
    obtain ⟨qs, h1, -⟩ := hpost
    cases r with
    | error fault => exact ⟨qs, h1.of_error⟩
    | ok i =>
      simp only
      cases ItemKey.ofFunctionQuery query with
      | error fault => exact ⟨qs, h1.of_ok _⟩
      | ok key =>
        simp only
        cases i.function key query a with
        | error fault => exact ⟨qs, h1.of_ok _⟩
        | ok f =>
          by_cases hsel : f.selector = selector
          · simp only [hsel, ne_eq, not_true_eq_false, if_false, always_pure]
            exact ⟨qs, h1.of_ok _⟩
          · simp only [ne_eq, hsel, not_false_eq_true, if_true, always_bind, always_throw]
            exact ⟨qs, h1.of_ok _⟩

/-- Running a plan over call data asks nothing. -/
lemma silent_runCalled (configure : Function → Plan CallPart) (f : Function) :
    Always (runCalled configure f) s fun _ s' => s.Silent s' := by
  refine (runCalled_cases configure f).mono fun r s' hpost => ?_
  rcases hpost with ⟨fault, -, rfl, rfl⟩ | ⟨n, run, -, rfl, -, hend⟩
  · exact .refl _
  · have hquiet := Plan.quiet_run (s.record.callScope f n).quiet_pick (configure f) s.callTrees
    have hnoted := (Silent.noted s hquiet).keepTrees
      ((s.record.callScope f n).run (configure f) s.callTrees).2.located
    have hran : s.Silent (s.ran f ((s.record.callScope f n).run (configure f) s.callTrees)) :=
      hnoted.write (d := .pickedCall f _) rfl
    rcases hend with ⟨fault, -, rfl⟩ | ⟨-, rfl⟩
    · exact hran
    · exact (hran.write rfl).gather _

lemma inquires_resolveFunction (query : String) (configure : Function → Plan CallPart) :
    Always (resolveFunction query configure) s fun r s' => ∃ qs, s.Inquires qs r s' := by
  simp only [resolveFunction, always_bind]
  refine (inquires_calledFunction query).mono fun r s1 hpost => ?_
  obtain ⟨qs, h1⟩ := hpost
  cases r with
  | error fault => exact ⟨qs, h1.of_error⟩
  | ok f => exact (silent_runCalled configure f).mono fun r s2 h2 => ⟨qs, h1.silent h2 r⟩

lemma searches_query {op : Operation} {l : LogQuery} (hop : op.logQuery? = some l) :
    Always op.query s fun r s' => ∃ qs, Searches l.query l.choose s qs r s' := by
  cases op with
  | resolveEvent query choose configure =>
    cases hop
    exact searches_resolveEvent query choose configure
  | resolveAllEvents query choose configure =>
    cases hop
    exact searches_resolveAllEvents query choose configure
  | eventSignature query choose =>
    cases hop
    exact searches_resolveEvent query choose _
  | eventArgument query choose name =>
    cases hop
    exact searches_resolveEvent query choose _
  | _ => cases hop

lemma inquires_query (op : Operation) (hop : ∀ source, op ≠ .setSource source) :
    Always op.query s fun r s' => ∃ qs, s.Inquires qs r s' := by
  have hnone : ∀ r s', s.Silent s' → ∃ qs, s.Inquires qs (r : Except QueryFault Unit) s' :=
    fun r s' h => ⟨[], h.inquires r⟩
  cases hl : op.logQuery? with
  | some l =>
    refine (searches_query hl).mono fun r s' hpost => ?_
    obtain ⟨qs, h⟩ := hpost
    exact ⟨qs, h.toInquires⟩
  | none =>
    cases op with
    | staticField f =>
      simp only [Operation.query, staticField, always_bind, always_record, always_ofExcept]
      cases staticSpan s.record f with
      | error fault => exact hnone _ _ (.refl s)
      | ok span => exact hnone _ _ ((Silent.refl s).gather [span])
    | manual span => exact hnone _ _ ((Silent.refl s).gather [span])
    | functionSignature =>
      simp only [Operation.query, functionSignature, always_bind, always_record, always_ofExcept]
      cases selectorSpan s.record with
      | error fault => exact hnone _ _ (.refl s)
      | ok span => exact hnone _ _ ((Silent.refl s).gather [span])
    | resolveFunction query configure =>
      rw [Operation.query]
      exact inquires_resolveFunction query configure
    | functionArgument query name =>
      rw [Operation.query]
      exact inquires_resolveFunction query _
    | setSource source => exact absurd rfl (hop source)
    | _ => cases hl

end Query

namespace Session

variable {s : Session}

lemma questions_eq {op : Operation} {qs : List Question} {r : Except QueryFault Unit}
    (h : s.Inquires qs r (s.perform op).2) : s.questions op = qs := by
  rw [questions, h.asked_eq, List.drop_left, ← h.answers_eq]

/-- What an operation asks and learns, as a function of the session. -/
lemma learns_perform (s : Session) (op : Operation) :
    s.Learns (s.questions op) (s.perform op).2 ∧
      ∀ front q back, s.questions op = front ++ q :: back → q.learns? = none →
        back = [] ∧ (s.perform op).1 = .error q.fault := by
  by_cases hop : ∃ source, op = .setSource source
  · obtain ⟨source, rfl⟩ := hop
    have hnothing : s.questions (.setSource source) = [] := by
      have hasked : (s.perform (.setSource source)).2.journal.asked = s.journal.asked := rfl
      rw [questions, hasked, List.drop_length, answers_nil]
    rw [hnothing]
    refine ⟨.of_interfaces_eq rfl (List.append_nil _).symm (by simp), fun front q back heq => ?_⟩
    simp at heq
  · obtain ⟨qs, h⟩ := Query.inquires_query (s := s) op fun source heq => hop ⟨source, heq⟩
    rw [questions_eq h]
    exact ⟨h.toLearns, h.ends⟩

/-- The questions of a query for events cover its candidates. -/
lemma covers_perform {op : Operation} {l : LogQuery} (hop : op.logQuery? = some l) :
    Covers s.known (s.record.receipt.emitters l.query) (s.questions op)
        (outcome (Query.search l.query l.choose) s).1 ∧
      ((s.perform op).1 = .ok () → ∃ os, s.Finds l.query l.choose os) := by
  obtain ⟨qs, h⟩ := Query.searches_query (s := s) hop
  rw [questions_eq h.toInquires]
  exact ⟨h.covers, h.finds⟩

end Session

end AbiSpan
