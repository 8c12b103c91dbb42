import AbiSpan.Session.Operation
import AbiSpan.Proofs.Event.Pick
import AbiSpan.Proofs.Library
import AbiSpan.Proofs.Session.Calling
import AbiSpan.Proofs.Session.Search

/-!
What the plans of an event query pick.

A record is consistent when its field of logs shows every log of the receipt under its number.
In a session over such a record each plan that a query runs is run over a log of the receipt, and
each of its picks comes to what it should; and if the query succeeds, the ranges it gathers are
those that were picked.
-/

namespace AbiSpan

lemma Node.showsLog_iff (encoded : Bytes) (log : Log) (n : Node) : n.ShowsLog encoded log ↔
    (n.child? 0).bind (·.slice? encoded) = some (List.replicate 12 0 ++ log.address.bytes) ∧
    (n.child? 1).map (·.children.map (·.slice? encoded)) =
      some (log.topics.map fun w => some w.bytes) ∧
    (n.child? 2).bind (·.slice? encoded) = some log.data := by
  simp only [Option.bind_eq_some_iff, Option.map_eq_some_iff]
  exact ⟨fun h => ⟨h.emitter, h.topics, h.data⟩, fun h => ⟨h.1, h.2.1, h.2.2⟩⟩

namespace Record

/-- The node of a log, by its number. -/
def log? (r : Record) (i : Nat) : Option Node := (r.field? .logs).bind (·.child? i)

/-- The logs of the receipt stand in the record, each under its number. -/
def Consistent (r : Record) : Prop :=
  ∀ i log, r.receipt.logs[i]? = some log → ∃ n, r.log? i = some n ∧ n.ShowsLog r.encoded log

instance (encoded : Bytes) (log : Log) (n : Node) : Decidable (n.ShowsLog encoded log) :=
  decidable_of_iff _ (Node.showsLog_iff encoded log n).symm

lemma consistent_iff {r : Record} : r.Consistent ↔ ∀ entry ∈ r.receipt.logs.zipIdx,
    (r.log? entry.2).any (fun n => n.ShowsLog r.encoded entry.1) = true := by
  simp only [Consistent, Option.any_eq_true, decide_eq_true_eq, Prod.forall,
    List.mem_zipIdx_iff_getElem?]
  exact ⟨fun h log i hlog => h i log hlog, fun h i log hlog => h log i hlog⟩

/-- The scope in which the parts of an occurrence are picked. -/
def scope (r : Record) (o : Occurrence) (n : Node) : LogScope :=
  { encoded := r.encoded, node := n, event := o.event, limits := r.settings.logDataLimits }

/-- The plan was run over a log of the receipt, one of the event, and all its picks came to what
they should. -/
def PickedRight (r : Record) (configure : Occurrence → Plan LogPart) (o : Occurrence)
    (outcomes : Outcomes) : Prop :=
  ∃ log n, r.receipt.logs[o.index]? = some log ∧ r.library.decode o.event log = .ok o.values ∧
    r.log? o.index = some n ∧
    List.Forall₂ ((r.scope o n).PicksRight log) ((configure o).asked outcomes) outcomes

end Record

/-- The ranges picked by the plans that were run over logs. -/
def pickedSpans (picks : List (Occurrence × Outcomes)) : List Span :=
  picks.flatMap fun pick => pick.2.filterMap (·.toOption)

namespace Query

variable {s : Session}

lemma logNode_of_log? {r : Record} {i : ℕ} {n : Node} (h : r.log? i = some n) :
    logNode r i = .ok n := by
  obtain ⟨logs, hlogs, hn⟩ := Option.bind_eq_some_iff.mp h
  simp [logNode, hlogs, hn]

/-! ### Running plans -/

/-- How running a plan over an occurrence ends: at once if its log has no node, and otherwise as the
plan does, after its notices and its picks have been written down. -/
lemma pickLog_cases (configure : Occurrence → Plan LogPart) (o : Occurrence) :
    Always (pickLog configure o) s fun r s' =>
      (∃ fault, logNode s.record o.index = .error fault ∧ r = .error fault ∧ s' = s) ∨
      ∃ n picked state, logNode s.record o.index = .ok n ∧
        ((configure o).run (s.record.scope o n).pick).run { located := none } = (picked, state) ∧
        r = picked.verdict.map (fun _ => picked.spans) ∧
        s' = { s with journal :=
          (s.journal ++ state.notices.map Deed.noted).push (.pickedLog o picked.outcomes) } := by
  simp only [pickLog, always_bind, always_record, always_ofExcept]
  cases hn : logNode s.record o.index with
  | error fault => exact .inl ⟨fault, rfl, rfl, trivial⟩
  | ok n =>
    have hselected := (s.record.scope o n).appends_pick.spans_run (configure o) { located := none }
    generalize hrun : ((configure o).run (s.record.scope o n).pick).run { located := none } = run
      at hselected
    obtain ⟨picked, state⟩ := run
    replace hselected : state.spans = picked.spans := hselected
    have hrun' := hrun
    rw [Record.scope] at hrun'
    simp only [hrun', always_bind, always_forM_notify, always_write, always_ofExcept, hselected]
    exact .inr ⟨n, picked, state, rfl, hrun, rfl, rfl⟩

/-- A plan over an occurrence is run, written down, and picks what it should. -/
lemma always_pickLog (hs : s.record.Consistent) (hl : s.record.library.CountsTopics)
    (configure : Occurrence → Plan LogPart) {o : Occurrence} (ho : s.record.Holds o) :
    Always (pickLog configure o) s fun r s' => ∃ outcomes, s.Later [(o, outcomes)] s' ∧
      s.record.PickedRight configure o outcomes ∧
      ∀ spans, r = .ok spans → spans = pickedSpans [(o, outcomes)] := by
  obtain ⟨log, hlog, hdecode, hhash⟩ := ho
  obtain ⟨n, hn, hshows⟩ := hs o.index log hlog
  have hemits : o.event.Emits log := ⟨hl.topics hdecode, hhash⟩
  have hstep : ∀ part state, (s.record.scope o n).Remembers log.data state →
      Always ((s.record.scope o n).pick part) state fun r state' =>
        (s.record.scope o n).Remembers log.data state' ∧
          (s.record.scope o n).PicksRight log part r :=
    fun part _ hstate => LogScope.always_pick hshows hemits part hstate
  have hpicks := Plan.forall₂_asked_run hstep (configure o) (s := { located := none })
    (fun _ h => by cases h)
  refine (pickLog_cases configure o).mono fun r s' hpost => ?_
  rcases hpost with ⟨fault, hnone, -⟩ | ⟨n', picked, state, hn', hrun, rfl, rfl⟩
  · cases (logNode_of_log? hn).symm.trans hnone
  · cases (logNode_of_log? hn).symm.trans hn'
    rw [hrun] at hpicks
    refine ⟨picked.outcomes, (s.looksUp_noted state.notices).later.push_pickedLog o picked.outcomes,
      ⟨log, n, hlog, hdecode, hn, hpicks⟩, fun spans h => ?_⟩
    cases hv : picked.verdict with
    | error fault => simp [hv, Except.map] at h
    | ok u =>
      simp only [hv, Except.map, Except.ok.injEq] at h
      simp [← h, Picked.spans, pickedSpans]

lemma always_pickLogs (hs : s.record.Consistent) (hl : s.record.library.CountsTopics)
    (configure : Occurrence → Plan LogPart) (os : List Occurrence)
    (hos : ∀ o ∈ os, s.record.Holds o) :
    Always (pickLogs configure os) s fun r s' => ∃ picks, s.Later picks s' ∧
      (∀ o outcomes, (o, outcomes) ∈ picks → s.record.PickedRight configure o outcomes) ∧
      ∀ spans, r = .ok spans → spans = pickedSpans picks ∧ picks.map (·.1) = os := by
  induction os generalizing s with
  | nil =>
    refine ⟨[], .refl s, fun _ _ h => (by cases h), fun spans h => ?_⟩
    cases h
    exact ⟨rfl, rfl⟩
  | cons o os ih =>
    simp only [pickLogs, always_bind]
    have hpick := always_pickLog hs hl configure (hos o (by simp))
    refine hpick.mono fun r s1 hpost => ?_
    obtain ⟨outcomes, h1, hright, hspans⟩ := hpost
    cases r with
    | error fault =>
      refine ⟨[(o, outcomes)], h1, fun o' outcomes' h => ?_, fun _ h => by cases h⟩
      obtain ⟨rfl, rfl⟩ : o' = o ∧ outcomes' = outcomes := by simpa using h
      exact hright
    | ok spans =>
      have hrec := h1.record_eq
      have hrest := ih (s := s1) (by rwa [hrec]) (by rwa [hrec])
        (fun o' ho' => by rw [hrec]; exact hos o' (by simp [ho']))
      refine hrest.mono fun r s2 hpost => ?_
      obtain ⟨picks, h2, hrights, hmore⟩ := hpost
      have hall : ∀ o' outcomes', (o', outcomes') ∈ (o, outcomes) :: picks →
          s.record.PickedRight configure o' outcomes' := fun o' outcomes' h => by
        rcases List.mem_cons.mp h with heq | h
        · obtain ⟨rfl, rfl⟩ := Prod.mk.inj heq
          exact hright
        · rw [← hrec]
          exact hrights o' outcomes' h
      cases r with
      | error fault => exact ⟨(o, outcomes) :: picks, h1.trans h2, hall, fun _ h => by cases h⟩
      | ok rest =>
        refine ⟨(o, outcomes) :: picks, h1.trans h2, hall, fun spans' h => ?_⟩
        cases h
        obtain ⟨hrest, hos'⟩ := hmore rest rfl
        rw [hspans spans rfl, hrest, List.map_cons, hos']
        simp [pickedSpans]

/-! ### Whole queries -/

/-- What a query for events leaves behind. Its journal tells of plans that all picked what they
should. If it has succeeded, they were run over all the logs that the search finds, and what they
picked has been gathered; if it has failed, nothing has. -/
structure Selected (query : String) (choose : LogChoice) (configure : Occurrence → Plan LogPart)
    (s : Session) (r : Except QueryFault Unit) (s' : Session) : Prop where
  record_eq : s'.record = s.record
  picks : ∃ deeds, s'.journal.toList = s.journal.toList ++ deeds ∧
    (∀ o outcomes, .pickedLog o outcomes ∈ deeds → s.record.PickedRight configure o outcomes) ∧
    (r = .ok () → s'.spans = s.spans ++ pickedSpans (deeds.filterMap Deed.logPick?) ∧
      (outcome (search query choose) s).1 = .ok ((deeds.filterMap Deed.logPick?).map (·.1)))
  fails : ∀ fault, r = .error fault → s'.spans = s.spans

variable {query : String} {choose : LogChoice} {configure : Occurrence → Plan LogPart}
  {picks : List (Occurrence × Outcomes)} {s' : Session}

lemma selected_error (h : s.Later picks s')
    (hright : ∀ o outcomes, (o, outcomes) ∈ picks → s.record.PickedRight configure o outcomes)
    (fault : QueryFault) : Selected query choose configure s (.error fault) s' := by
  obtain ⟨hrecord, hspans, deeds, hj, rfl⟩ := h
  refine ⟨hrecord, ⟨deeds, hj, fun o outcomes hmem => ?_, fun h => by cases h⟩, fun _ _ => hspans⟩
  exact hright o outcomes (List.mem_filterMap.mpr ⟨_, hmem, rfl⟩)

lemma selected_gather (h : s.Later picks s')
    (hright : ∀ o outcomes, (o, outcomes) ∈ picks → s.record.PickedRight configure o outcomes)
    (hfound : (outcome (search query choose) s).1 = .ok (picks.map (·.1))) :
    Selected query choose configure s (.ok ())
      { s' with spans := s'.spans ++ pickedSpans picks } := by
  obtain ⟨hrecord, hspans, deeds, hj, rfl⟩ := h
  refine ⟨hrecord, ⟨deeds, hj, fun o outcomes hmem => ?_, fun _ => ⟨?_, hfound⟩⟩,
    fun _ h => by cases h⟩
  · exact hright o outcomes (List.mem_filterMap.mpr ⟨_, hmem, rfl⟩)
  · rw [hspans]

lemma selected_resolveEvent (hs : s.record.Consistent) (hl : s.record.library.CountsTopics)
    (query : String) (choose : LogChoice) (configure : Occurrence → Plan LogPart) :
    Always (resolveEvent query choose configure) s (Selected query choose configure s) := by
  have hnone : ∀ o outcomes, (o, outcomes) ∈ ([] : List (Occurrence × Outcomes)) →
      s.record.PickedRight configure o outcomes := fun _ _ h => by cases h
  simp only [resolveEvent, always_bind]
  refine (always_search query choose).with_outcome.mono fun r s1 hpost => ?_
  obtain ⟨hout, h1, hfound⟩ := hpost
  cases r with
  | error fault => exact selected_error h1.later hnone fault
  | ok os =>
    obtain ⟨hos, -⟩ := hfound os rfl
    rcases os with _ | ⟨o, _ | ⟨o', os⟩⟩
    · have hdone := selected_gather (h1.write (d := .noted (.noLogMatched query)) rfl).later hnone
        (congrArg Prod.fst hout)
      rw [pickedSpans, List.flatMap_nil, List.append_nil] at hdone
      exact hdone
    · have hrec := h1.record_eq
      simp only [always_bind]
      have hpick := always_pickLog (s := s1) (by rwa [hrec]) (by rwa [hrec]) configure
        (hrec ▸ hos o (by simp))
      refine hpick.mono fun r s2 hpost => ?_
      obtain ⟨outcomes, h2, hright, hspans⟩ := hpost
      have hall : ∀ o' outcomes', (o', outcomes') ∈ [(o, outcomes)] →
          s.record.PickedRight configure o' outcomes' := fun o' outcomes' h => by
        obtain ⟨rfl, rfl⟩ : o' = o ∧ outcomes' = outcomes := by simpa using h
        exact hrec ▸ hright
      cases r with
      | error fault => exact selected_error (h1.later.trans h2) hall fault
      | ok spans =>
        rw [hspans spans rfl]
        exact selected_gather (h1.later.trans h2) hall (congrArg Prod.fst hout)
    · exact selected_error h1.later hnone _

lemma selected_resolveAllEvents (hs : s.record.Consistent) (hl : s.record.library.CountsTopics)
    (query : String) (choose : LogChoice) (configure : Occurrence → Plan LogPart) :
    Always (resolveAllEvents query choose configure) s (Selected query choose configure s) := by
  simp only [resolveAllEvents, always_bind]
  refine (always_search query choose).with_outcome.mono fun r s1 hpost => ?_
  obtain ⟨hout, h1, hfound⟩ := hpost
  cases r with
  | error fault => exact selected_error h1.later (fun _ _ h => by cases h) fault
  | ok os =>
    simp only [always_notify]
    have h1' := (h1.write (d := .noted (.logsMatched query os.length)) rfl).later
    have hrec := h1'.record_eq
    have hpicks := always_pickLogs (by rwa [hrec]) (by rwa [hrec]) configure os
      fun o ho => hrec ▸ (hfound os rfl).1 o ho
    refine hpicks.mono fun r s2 hpost => ?_
    obtain ⟨picks, h2, hright, hspans⟩ := hpost
    rw [hrec] at hright
    cases r with
    | error fault => exact selected_error (h1'.trans h2) hright fault
    | ok spans =>
      obtain ⟨rfl, hos⟩ := hspans spans rfl
      refine selected_gather (h1'.trans h2) hright ?_
      rw [hout, hos]

end Query

/-- **Event selections point at the right bytes.** In a session over a consistent record, whatever
is asked for, each plan that a query for events runs is run over a log of the receipt and picks
the word of its emitter, its topics, and the arguments where they stand in its topics or in its
data. The library may read logs as it likes, but for the number of their topics. -/
theorem Session.perform_selects (s : Session) (hs : s.record.Consistent)
    (hl : s.record.library.CountsTopics) (query : String) (choose : LogChoice)
    (configure : Occurrence → Plan LogPart) :
    ∀ op ∈ [Operation.resolveEvent query choose configure,
        .resolveAllEvents query choose configure],
      Query.Selected query choose configure s (s.perform op).1 (s.perform op).2 := by
  intro op hop
  simp only [List.mem_cons, List.not_mem_nil, or_false] at hop
  rcases hop with rfl | rfl
  · exact Query.selected_resolveEvent hs hl query choose configure
  · exact Query.selected_resolveAllEvents hs hl query choose configure

/-! ### A session with three logs -/

/-- An anonymous event: who did what. -/
def note : Event where
  name := "Note"
  inputs := [⟨"who", "address", true, []⟩, ⟨"what", "uint8", false, []⟩]
  anonymous := true

def notes : Interface where
  events := [note]
  functions := []

/-- The interface as a document. -/
def noteDoc : Json :=
  .array [.object [("type", .string "event"), ("name", .string "Note"),
    ("inputs", .array [
      .object [("name", .string "who"), ("type", .string "address"), ("indexed", .bool true)],
      .object [("name", .string "what"), ("type", .string "uint8"), ("indexed", .bool false)]]),
    ("anonymous", .bool true)]]

lemma interface?_noteDoc : Library.standard.interface? noteDoc.render = some notes := by
  have hwritable : Json.Writable .any noteDoc := by
    simp [noteDoc, Json.Writable, Json.WritableItems, Json.WritablePairs, Json.Shape.ofPlace,
      Json.Shape.ofKey]
  rw [Library.interface?_render hwritable]
  with_unfolding_all rfl

/-- The log in which the contract seven tells that three did something. -/
def noteLog (what : Nat) : Log where
  address := ⟨Bytes.ofNat 20 7, rfl⟩
  topics := [⟨Bytes.ofNat 32 3, rfl⟩]
  data := Bytes.ofNat 32 what

/-- What was done. -/
def noteActs : List Nat := [9, 7, 5]

/-- A transaction that calls the contract. -/
def noting : Transaction where
  kind := .legacy
  destination := some (noteLog 0).address
  input := [1, 2, 3, 4]

/-- Its record: fifteen words, of which three point to the call data, to the logs and to the empty
blooms. -/
def noteRecord : Bytes :=
  [0, 0, 0, 0, 0, 0, 0, 480, 0, 0, 0, 1, 0, 544, 1344].flatMap (Bytes.ofNat 32) ++
    (Bytes.ofNat 32 4 ++ noting.input ++ List.replicate 28 0) ++
    ([3, 96, 320, 544] ++ noteActs.flatMap fun what => [7, 96, 160, 1, 3, 32, what]).flatMap
      (Bytes.ofNat 32) ++ Bytes.ofNat 32 0

def noteReceipt : Receipt where
  logs := noteActs.map noteLog

/-- The session that is opened over the record. -/
@[irreducible] def noteOpened : Session :=
  (Session.ofEncoded noting noteReceipt noteRecord {}).toOption.get (by decide +kernel)

lemma ofEncoded_noteRecord :
    Session.ofEncoded noting noteReceipt noteRecord {} = .ok noteOpened := by
  unfold noteOpened
  exact eq_ok_of_toOption (Option.some_get _).symm

/-- The session once it has a source. -/
def noteSourced : Session := noteOpened.performAll [.setSource (.table [] (some noteDoc.render))]

/-- The session once it has been asked for a function that there is not. -/
def noteSession : Session := noteSourced.performAll [.functionArgument "unnote" "what"]

lemma noteSession_eq : noteSession = noteSourced.taught (noteLog 0).address notes := by
  have htarget : Query.callTarget noting = .ok ((noteLog 0).address, ⟨noting.input, rfl⟩) := rfl
  have hkey : ItemKey.ofFunctionQuery "unnote" = .ok (.name "unnote") :=
    eq_ok_of_toOption (by decide +kernel)
  exact Session.performAll_eq_taught_of_ofEncoded "what" ofEncoded_noteRecord htarget
    interface?_noteDoc hkey rfl

/-- Picks the emitter of a note, and its two arguments. -/
def notePlan (_ : Occurrence) : Plan LogPart :=
  .inOrder [(.address, false), (.argument "who", false), (.argument "what", false)]

lemma noteSession_record : noteSession.record = noteOpened.record := by
  rw [noteSession_eq]
  rfl

lemma noteSession_consistent : noteSession.record.Consistent := by
  rw [noteSession_record, Record.consistent_iff]
  decide +kernel

lemma noteSession_library : noteSession.record.library.ReadsValues := by
  obtain ⟨-, -, -, -, hlibrary⟩ := Session.record_of_ofEncoded ofEncoded_noteRecord
  rw [noteSession_record, hlibrary]
  exact Library.readsValues_standard

/-- All that the plan picks is gathered. -/
lemma noteSession_gathers :
    (noteSession.perform (.resolveAllEvents "Note" .every notePlan)).1 = .ok () ∧
    (noteSession.perform (.resolveAllEvents "Note" .every notePlan)).2.spans =
      [⟨672, 32⟩, ⟨800, 32⟩, ⟨864, 32⟩, ⟨896, 32⟩, ⟨1024, 32⟩, ⟨1088, 32⟩, ⟨1120, 32⟩, ⟨1248, 32⟩,
        ⟨1312, 32⟩] := by
  rw [noteSession_eq]
  decide +kernel

/-- The emitter of each note and both arguments are picked. -/
theorem noteSession_selects :
    Session.ofEncoded noting noteReceipt noteRecord {} = .ok noteOpened ∧
    noteSession.record.Consistent ∧ noteSession.record.library.CountsTopics ∧
    (noteSession.perform (.resolveAllEvents "Note" .every notePlan)).2.spans =
      [⟨672, 32⟩, ⟨800, 32⟩, ⟨864, 32⟩, ⟨896, 32⟩, ⟨1024, 32⟩, ⟨1088, 32⟩, ⟨1120, 32⟩, ⟨1248, 32⟩,
        ⟨1312, 32⟩] ∧
    Query.Selected "Note" .every notePlan noteSession
      (noteSession.perform (.resolveAllEvents "Note" .every notePlan)).1
      (noteSession.perform (.resolveAllEvents "Note" .every notePlan)).2 := by
  have htopics := noteSession_library.toCountsTopics
  refine ⟨ofEncoded_noteRecord, noteSession_consistent, htopics, noteSession_gathers.2, ?_⟩
  exact noteSession.perform_selects noteSession_consistent htopics "Note" .every notePlan _
    (by simp)

end AbiSpan
