import AbiSpan.Proofs.Event.Values
import AbiSpan.Proofs.Session.EventPicks
import AbiSpan.Proofs.Session.Found

/-!
What an event query picks means what its choice was shown.

The caller chooses logs by their decoded values and proves things over the bytes picked from
them. In a session over a consistent record both speak of the same log, so by what a pick of an
argument means they speak of the same bytes. This holds of every plan that a query runs, also of
those that end in a fault, and of queries that fail after it.
-/

namespace AbiSpan

/-- The occurrence is a log of the receipt, chosen for the values that it was decoded to. -/
def Record.Chooses (r : Record) (choose : LogChoice) (o : Occurrence) : Prop :=
  ∃ log, r.receipt.logs[o.index]? = some log ∧ r.library.decode o.event log = .ok o.values ∧
    choose log o.values o.index = true

/-- If the part is an argument and was picked, the bytes selected mean the decoded value of the
first input of that name. -/
def Occurrence.Reads (o : Occurrence) (encoded : Bytes) (part : LogPart)
    (outcome : Except QueryFault Span) : Prop :=
  ∀ name before p span, part = .argument name → outcome = .ok span →
    o.event.FirstInput name before p →
      ∃ t, p.type = .ok t ∧ o.values.Means encoded before p t span

/-- The plan was run over a log chosen for its values, and all that it picked means those. -/
def Record.ReadsRight (r : Record) (choose : LogChoice) (configure : Occurrence → Plan LogPart)
    (o : Occurrence) (outcomes : Outcomes) : Prop :=
  r.Chooses choose o ∧
    List.Forall₂ (o.Reads r.encoded) ((configure o).asked outcomes) outcomes

lemma Record.PickedRight.reads {r : Record} {configure : Occurrence → Plan LogPart}
    {o : Occurrence} {outcomes : Outcomes} (hl : r.library.ReadsValues)
    (h : r.PickedRight configure o outcomes) :
    List.Forall₂ (o.Reads r.encoded) ((configure o).asked outcomes) outcomes := by
  obtain ⟨log, n, -, hdecode, -, hpicks⟩ := h
  obtain ⟨types, htypes, hreads⟩ := hl.reads hdecode
  refine hpicks.imp fun part outcome hpick => ?_
  rintro name before p span rfl rfl hfirst
  exact LogScope.means_of_picksRight (s := r.scope o n) htypes hreads hpick hfirst

/-- The session `s'` is `s` over the same record, after plans that were run over logs went as `P`
says. -/
structure Session.RunsPlans (s : Session) (P : Occurrence → Outcomes → Prop) (s' : Session) :
    Prop where
  record_eq : s'.record = s.record
  journal_eq : ∃ deeds, s'.journal.toList = s.journal.toList ++ deeds ∧
    ∀ o outcomes, .pickedLog o outcomes ∈ deeds → P o outcomes

namespace Session

variable {s s' s'' : Session} {P : Occurrence → Outcomes → Prop}

lemma RunsPlans.trans (h : s.RunsPlans P s') (h' : s'.RunsPlans P s'') : s.RunsPlans P s'' := by
  obtain ⟨hrecord, deeds, hj, hP⟩ := h
  obtain ⟨hrecord', deeds', hj', hP'⟩ := h'
  refine ⟨hrecord'.trans hrecord, deeds ++ deeds', by simp [hj', hj], fun o outcomes hmem => ?_⟩
  rcases List.mem_append.mp hmem with hmem | hmem
  · exact hP o outcomes hmem
  · exact hP' o outcomes hmem

/-- Ranges that are gathered make no difference. -/
lemma RunsPlans.gather (h : s.RunsPlans P s') (spans : List Span) :
    s.RunsPlans P { s' with spans := s'.spans ++ spans } := ⟨h.record_eq, h.journal_eq⟩

lemma Later.runsPlans {picks : List (Occurrence × Outcomes)} (h : s.Later picks s')
    (hP : ∀ o outcomes, (o, outcomes) ∈ picks → P o outcomes) : s.RunsPlans P s' := by
  obtain ⟨hrecord, -, deeds, hj, rfl⟩ := h
  exact ⟨hrecord, deeds, hj, fun o outcomes hmem =>
    hP o outcomes (List.mem_filterMap.mpr ⟨_, hmem, rfl⟩)⟩

lemma LooksUp.runsPlans (h : s.LooksUp s') : s.RunsPlans P s' :=
  h.later.runsPlans fun _ _ hmem => by cases hmem

end Session

namespace Query

variable {s : Session} {choose : LogChoice} {configure : Occurrence → Plan LogPart}

/-! ### What is found was chosen -/

lemma chosen_search (query : String) (choose : LogChoice) :
    Always (search query choose) s fun r s' => s.LooksUp s' ∧
      ∀ os, r = .ok os → ∀ o ∈ os, s.record.Holds o ∧ s.record.Chooses choose o := by
  have hsearch := always_search (s := s) query choose
  refine ⟨hsearch.1, fun os hos o ho => ?_⟩
  have hholds := (hsearch.2 os hos).1 o ho
  obtain ⟨log, hlog, hdecode, -⟩ := id hholds
  -- what is found passed the choice, which was shown the log that stands under this number
  have haccepts : s.record.receipt.accepts choose o = true := by
    rw [outcome_search_choice] at hos
    cases hevery : (outcome (search query .every) s).1 with
    | error fault =>
      rw [hevery] at hos
      cases hos
    | ok shown =>
      rw [hevery] at hos
      cases hos
      exact (List.mem_filter.mp ho).2
  rw [Receipt.accepts, hlog, Option.any_some] at haccepts
  exact ⟨hholds, log, hlog, hdecode, haccepts⟩

/-! ### The plans that are run -/

lemma reads_pickLog (configure : Occurrence → Plan LogPart) {r : Record} (hr : s.record = r)
    (hs : r.Consistent) (hl : r.library.ReadsValues) {o : Occurrence} (hholds : r.Holds o)
    (ho : r.Chooses choose o) :
    Always (pickLog configure o) s fun _ s' => s.RunsPlans (r.ReadsRight choose configure) s' := by
  subst hr
  have hpick := always_pickLog hs hl.toCountsTopics configure hholds
  refine hpick.mono fun _ s' hpost => ?_
  obtain ⟨outcomes, hlater, hpicked, -⟩ := hpost
  refine hlater.runsPlans fun o' outcomes' hmem => ?_
  obtain ⟨rfl, rfl⟩ : o' = o ∧ outcomes' = outcomes := by simpa using hmem
  exact ⟨ho, hpicked.reads hl⟩

lemma reads_pickLogs (configure : Occurrence → Plan LogPart) {r : Record} (hr : s.record = r)
    (hs : r.Consistent) (hl : r.library.ReadsValues) (os : List Occurrence)
    (hos : ∀ o ∈ os, r.Holds o ∧ r.Chooses choose o) :
    Always (pickLogs configure os) s fun _ s' =>
      s.RunsPlans (r.ReadsRight choose configure) s' := by
  induction os generalizing s with
  | nil => exact (Session.LooksUp.refl s).runsPlans
  | cons o os ih =>
    simp only [pickLogs, always_bind]
    obtain ⟨hholds, ho⟩ := hos o (by simp)
    refine (reads_pickLog configure hr hs hl hholds ho).mono fun x s1 h1 => ?_
    cases x with
    | error fault => exact h1
    | ok spans =>
      have hrest := ih (h1.record_eq.trans hr) fun o' ho' => hos o' (by simp [ho'])
      refine hrest.mono fun x s2 h2 => ?_
      cases x <;> exact h1.trans h2

lemma reads_resolveEvent (hs : s.record.Consistent) (hl : s.record.library.ReadsValues)
    (query : String) :
    Always (resolveEvent query choose configure) s fun _ s' =>
      s.RunsPlans (s.record.ReadsRight choose configure) s' := by
  simp only [resolveEvent, always_bind]
  refine (chosen_search query choose).mono fun r s1 hpost => ?_
  obtain ⟨h1, hfound⟩ := hpost
  cases r with
  | error fault => exact h1.runsPlans
  | ok os =>
    rcases os with _ | ⟨o, _ | ⟨o', os⟩⟩
    · exact (h1.write rfl).runsPlans
    · simp only [always_bind]
      obtain ⟨hholds, ho⟩ := hfound _ rfl o (by simp)
      refine (reads_pickLog configure h1.record_eq hs hl hholds ho).mono fun r s2 h2 => ?_
      have hrun := h1.runsPlans.trans h2
      cases r with
      | error fault => exact hrun
      | ok spans => exact hrun.gather spans
    · exact h1.runsPlans

lemma reads_resolveAllEvents (hs : s.record.Consistent) (hl : s.record.library.ReadsValues)
    (query : String) :
    Always (resolveAllEvents query choose configure) s fun _ s' =>
      s.RunsPlans (s.record.ReadsRight choose configure) s' := by
  simp only [resolveAllEvents, always_bind]
  refine (chosen_search query choose).mono fun r s1 hpost => ?_
  obtain ⟨h1, hfound⟩ := hpost
  cases r with
  | error fault => exact h1.runsPlans
  | ok os =>
    simp only [always_notify]
    have h1' := h1.write (d := .noted (.logsMatched query os.length)) rfl
    have hpicks := reads_pickLogs configure h1'.record_eq hs hl os (hfound os rfl)
    refine hpicks.mono fun r s2 h2 => ?_
    have hrun := h1'.runsPlans.trans h2
    cases r with
    | error fault => exact hrun
    | ok spans => exact hrun.gather spans

end Query

/-- An operation that looks for events is a query that was specified by what it selects. -/
lemma Session.selected_perform (s : Session) (hs : s.record.Consistent)
    (hl : s.record.library.ReadsValues) {op : Operation} {l : LogQuery}
    (hop : op.logQuery? = some l) :
    Query.Selected l.query l.choose l.configure s (s.perform op).1 (s.perform op).2 ∧
      s.RunsPlans (s.record.ReadsRight l.choose l.configure) (s.perform op).2 := by
  have htopics := hl.toCountsTopics
  cases op with
  | resolveEvent query choose configure =>
    cases hop
    exact ⟨Query.selected_resolveEvent hs htopics query _ _, Query.reads_resolveEvent hs hl query⟩
  | resolveAllEvents query choose configure =>
    cases hop
    exact ⟨Query.selected_resolveAllEvents hs htopics query _ _,
      Query.reads_resolveAllEvents hs hl query⟩
  | eventSignature query choose =>
    cases hop
    exact ⟨Query.selected_resolveEvent hs htopics query _ _, Query.reads_resolveEvent hs hl query⟩
  | eventArgument query choose name =>
    cases hop
    exact ⟨Query.selected_resolveEvent hs htopics query _ _, Query.reads_resolveEvent hs hl query⟩
  | _ => cases hop

/-- **Selected bytes and decoded values agree.** In a session over a consistent record, every
operation that looks for events runs its plans over logs that were chosen for their values, and
whatever a plan picks for an argument of one word, of bytes or of text means, decoded by itself,
the value of that argument that the choice was shown. If the operation succeeds, the ranges that
it gathers are those that these plans picked. Of the library it takes no more than that it reads
values from where the encoding has them. -/
theorem Session.perform_reads_values (s : Session) (hs : s.record.Consistent)
    (hl : s.record.library.ReadsValues) {op : Operation} {l : LogQuery}
    (hop : op.logQuery? = some l) :
    ∃ deeds, (s.perform op).2.journal.toList = s.journal.toList ++ deeds ∧
      (∀ o outcomes, .pickedLog o outcomes ∈ deeds →
        s.record.ReadsRight l.choose l.configure o outcomes) ∧
      ((s.perform op).1 = .ok () →
        (s.perform op).2.spans = s.spans ++ pickedSpans (deeds.filterMap Deed.logPick?)) := by
  obtain ⟨hselected, -, deeds, hj, hreads⟩ := s.selected_perform hs hl hop
  obtain ⟨deeds', hj', -, hspans⟩ := hselected.picks
  obtain rfl : deeds' = deeds := List.append_cancel_left (hj'.symm.trans hj)
  exact ⟨deeds', hj, hreads, fun hok => (hspans hok).1⟩

/-- Chooses notes of what is nine. -/
def choosesNine (_ : Log) (values : LogValues) (_ : Nat) : Bool :=
  match values.body with
  | [.uint _ n] => n == 9
  | _ => false

lemma noteSession_gathers_nine :
    (noteSession.perform (.resolveAllEvents "Note" choosesNine notePlan)).2.spans =
      [⟨672, 32⟩, ⟨800, 32⟩, ⟨864, 32⟩] := by
  rw [noteSession_eq]
  decide +kernel

/-- One note is chosen for its value, and what is picked from it means its values. -/
theorem noteSession_reads_values : noteSession.record.Consistent ∧
    noteSession.record.library.ReadsValues ∧
    (Operation.resolveAllEvents "Note" choosesNine notePlan).logQuery? =
      some { query := "Note", choose := choosesNine, configure := notePlan } ∧
    (noteSession.perform (.resolveAllEvents "Note" choosesNine notePlan)).2.spans =
      [⟨672, 32⟩, ⟨800, 32⟩, ⟨864, 32⟩] ∧
    ∃ deeds,
      (noteSession.perform (.resolveAllEvents "Note" choosesNine notePlan)).2.journal.toList =
        noteSession.journal.toList ++ deeds ∧
      ∀ o outcomes, .pickedLog o outcomes ∈ deeds →
        noteSession.record.ReadsRight choosesNine notePlan o outcomes := by
  refine ⟨noteSession_consistent, noteSession_library, rfl, noteSession_gathers_nine, ?_⟩
  have hquery : (Operation.resolveAllEvents "Note" choosesNine notePlan).logQuery? =
      some { query := "Note", choose := choosesNine, configure := notePlan } := rfl
  obtain ⟨deeds, hj, hreads, -⟩ :=
    noteSession.perform_reads_values noteSession_consistent noteSession_library hquery
  exact ⟨deeds, hj, hreads⟩

end AbiSpan
