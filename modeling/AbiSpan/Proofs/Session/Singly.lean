import AbiSpan.Proofs.Session.Asking
import AbiSpan.Proofs.Session.Found

/-!
Queries for one log, and for all of them at once.

What a plan picks from a log depends on the record alone, so whether it is run over all the logs
that a search finds, or over one after another, the same is picked. To take the logs singly repeats
the search for each; but what the first search has learnt is all that the others need, and they
leave the session as it is. So the two ways agree, ranges and interfaces alike, where every plan
succeeds; where one does not, the query for all logs ends there and gathers nothing.
-/

namespace AbiSpan

/-- The choice, made among the logs of this number only. -/
def LogChoice.only (choose : LogChoice) (index : Nat) : LogChoice :=
  fun log values i => choose log values i && i == index

namespace Record

/-- What running the plan for an occurrence over its log comes to. -/
def applied (r : Record) (configure : Occurrence → Plan LogPart) (o : Occurrence) :
    Except QueryFault (List Span) :=
  (Query.logNode r o.index).bind fun n =>
    let picked := (((configure o).run (r.scope o n).pick).run { located := none }).1
    picked.verdict.map fun _ => picked.spans

/-- The occurrence, if the record has a node for its log; only then a plan for it is run. -/
def reached (r : Record) (o : Occurrence) : List Occurrence :=
  (Query.logNode r o.index).toOption.toList.map fun _ => o

variable {r : Record} {configure : Occurrence → Plan LogPart} {o : Occurrence}

lemma reached_of_applied {part : List Span} (h : r.applied configure o = .ok part) :
    r.reached o = [o] := by
  unfold applied at h
  cases hn : Query.logNode r o.index with
  | error fault => simp [hn, Except.bind] at h
  | ok n => simp [reached, hn, Except.toOption]

/-- Either all plans succeed, or there is a first that does not. -/
lemma applied_or (r : Record) (configure : Occurrence → Plan LogPart) (os : List Occurrence) :
    (∃ parts, List.Forall₂ (fun o part => r.applied configure o = .ok part) os parts) ∨
      ∃ front o back fault, os = front ++ o :: back ∧
        (∀ o' ∈ front, ∃ part, r.applied configure o' = .ok part) ∧
          r.applied configure o = .error fault := by
  induction os with
  | nil => exact .inl ⟨[], .nil⟩
  | cons o os ih =>
    cases ho : r.applied configure o with
    | error fault => exact .inr ⟨[], o, os, fault, rfl, fun _ h => (by cases h), ho⟩
    | ok part =>
      rcases ih with ⟨parts, hparts⟩ | ⟨front, o', back, fault, rfl, hfront, hfault⟩
      · exact .inl ⟨part :: parts, .cons ho hparts⟩
      · exact .inr ⟨o :: front, o', back, fault, rfl,
          List.forall_mem_cons.mpr ⟨⟨part, ho⟩, hfront⟩, hfault⟩

end Record

namespace Session

/-- The occurrences over whose logs plans have been run since the session was `s`, in order. -/
def configuredSince (s s' : Session) : List Occurrence :=
  ((s'.journal.toList.drop s.journal.toList.length).filterMap Deed.logPick?).map (·.1)

/-- The session `s'` is `s` after plans were run over the logs of these occurrences. -/
structure Configures (s : Session) (os : List Occurrence) (s' : Session) : Prop extends
    s.Stays s' where
  interfaces_eq : s'.interfaces = s.interfaces
  journal_eq : ∃ deeds, s'.journal.toList = s.journal.toList ++ deeds ∧
    (deeds.filterMap Deed.logPick?).map (·.1) = os

variable {s s' s'' : Session} {os os' : List Occurrence}

namespace Configures

lemma refl (s : Session) : s.Configures [] s := ⟨.refl s, rfl, [], by simp, rfl⟩

lemma trans (h : s.Configures os s') (h' : s'.Configures os' s'') :
    s.Configures (os ++ os') s'' := by
  obtain ⟨hstays, hinterfaces, deeds, hj, hd⟩ := h
  obtain ⟨hstays', hinterfaces', deeds', hj', hd'⟩ := h'
  exact ⟨hstays.trans hstays', hinterfaces'.trans hinterfaces, deeds ++ deeds', by simp [hj', hj],
    by simp [hd, hd']⟩

lemma notify (h : s.Configures os s') (n : Notice) :
    s.Configures os { s' with journal := s'.journal.push (.noted n) } := by
  obtain ⟨hstays, hinterfaces, deeds, hj, hd⟩ := h
  exact ⟨hstays.write _, hinterfaces, deeds ++ [.noted n], by simp [hj], by
    simp [hd, Deed.logPick?]⟩

end Configures

end Session

namespace Query

open Session

variable {s s₁ : Session} {configure : Occurrence → Plan LogPart} {o : Occurrence}
  {query : String} {choose : LogChoice}

/-! ### Running plans -/

lemma configures_pickLog (configure : Occurrence → Plan LogPart) (o : Occurrence) :
    Always (pickLog configure o) s fun r s' =>
      r = s.record.applied configure o ∧ s.Configures (s.record.reached o) s' := by
  unfold Record.applied Record.reached
  refine (pickLog_cases configure o).mono fun r s' hpost => ?_
  rcases hpost with ⟨fault, hn, rfl, rfl⟩ | ⟨n, picked, state, hn, hrun, rfl, rfl⟩
  · rw [hn]
    exact ⟨rfl, .refl s'⟩
  · rw [hn]
    refine ⟨by simp only [Except.bind, hrun], ⟨rfl, rfl, rfl, rfl, .refl _⟩, rfl,
      state.notices.toList.map .noted ++ [.pickedLog o picked.outcomes], by simp, ?_⟩
    have hnotices : (state.notices.toList.map Deed.noted).filterMap Deed.logPick? = [] := by
      simp [List.filterMap_map, Function.comp_def, Deed.logPick?]
    rw [List.filterMap_append, hnotices]
    rfl

lemma configures_pickLogs {r : Record} (hr : s.record = r) {os : List Occurrence}
    {parts : List (List Span)}
    (h : List.Forall₂ (fun o part => r.applied configure o = .ok part) os parts) :
    Always (pickLogs configure os) s fun result s' =>
      result = .ok parts.flatten ∧ s.Configures os s' := by
  induction h generalizing s with
  | nil => exact ⟨rfl, .refl s⟩
  | cons ho _ ih =>
    subst hr
    simp only [pickLogs, always_bind]
    refine (configures_pickLog configure _).mono fun result s1 hpost => ?_
    obtain ⟨rfl, h1⟩ := hpost
    rw [Record.reached_of_applied ho] at h1
    simp only [ho]
    refine (ih h1.record_eq).mono fun result s2 hpost => ?_
    obtain ⟨rfl, h2⟩ := hpost
    exact ⟨rfl, h1.trans h2⟩

/-- The first plan that fails is the last that is run, if it is run at all. -/
lemma configures_pickLogs_stop {r : Record} (hr : s.record = r) {front back : List Occurrence}
    {fault : QueryFault} (hfront : ∀ o' ∈ front, ∃ part, r.applied configure o' = .ok part)
    (ho : r.applied configure o = .error fault) :
    Always (pickLogs configure (front ++ o :: back)) s fun result s' =>
      result = .error fault ∧ s.Configures (front ++ r.reached o) s' := by
  induction front generalizing s with
  | nil =>
    subst hr
    simp only [List.nil_append, pickLogs, always_bind]
    refine (configures_pickLog configure o).mono fun result s1 hpost => ?_
    obtain ⟨rfl, h1⟩ := hpost
    simp only [ho]
    exact ⟨trivial, h1⟩
  | cons o' front ih =>
    subst hr
    obtain ⟨part, hpart⟩ := hfront o' (by simp)
    simp only [List.cons_append, pickLogs, always_bind]
    refine (configures_pickLog configure o').mono fun result s1 hpost => ?_
    obtain ⟨rfl, h1⟩ := hpost
    rw [Record.reached_of_applied hpart] at h1
    simp only [hpart]
    refine (ih h1.record_eq fun o ho => hfront o (by simp [ho])).mono fun result s2 hpost => ?_
    obtain ⟨rfl, h2⟩ := hpost
    exact ⟨rfl, h1.trans h2⟩

/-! ### Whole queries -/

/-- A query for one log runs the plan over the only log found. -/
lemma always_resolveEvent_one (configure : Occurrence → Plan LogPart)
    (hout : outcome (search query choose) s = (.ok [o], s₁)) :
    Always (resolveEvent query choose configure) s fun r s' =>
      r = (s₁.record.applied configure o).map (fun _ => ()) ∧ ∃ s₂,
        s₁.Configures (s₁.record.reached o) s₂ ∧ s' = { s₂ with
          spans := s₂.spans ++ (s₁.record.applied configure o).toOption.getD [] } := by
  simp only [resolveEvent, always_bind]
  rw [always_iff_of_outcome hout]
  simp only [always_bind]
  refine (configures_pickLog configure o).mono fun r s₂ hpost => ?_
  obtain ⟨rfl, h₂⟩ := hpost
  cases s₁.record.applied configure o with
  | error fault => exact ⟨rfl, s₂, h₂, by simp [Except.toOption]⟩
  | ok part =>
    simp only [always_gather]
    exact ⟨rfl, s₂, h₂, rfl⟩

/-- A query for all logs runs the plans over all logs found, and gathers what they all pick. -/
lemma always_resolveAllEvents (configure : Occurrence → Plan LogPart) {os : List Occurrence}
    (hout : outcome (search query choose) s = (.ok os, s₁)) {parts : List (List Span)}
    (hparts : List.Forall₂ (fun o part => s₁.record.applied configure o = .ok part) os parts) :
    Always (resolveAllEvents query choose configure) s fun r s' => r = .ok () ∧ ∃ s₂,
      s₁.Configures os s₂ ∧ s' = { s₂ with spans := s₂.spans ++ parts.flatten } := by
  simp only [resolveAllEvents, always_bind]
  rw [always_iff_of_outcome hout]
  simp only [always_notify]
  have h₁ := (Configures.refl s₁).notify (.logsMatched query os.length)
  refine (configures_pickLogs h₁.record_eq hparts).mono fun r s₂ hpost => ?_
  obtain ⟨rfl, h₂⟩ := hpost
  simp only [always_gather]
  exact ⟨trivial, s₂, h₁.trans h₂, rfl⟩

lemma always_resolveAllEvents_stop {front back : List Occurrence} {fault : QueryFault}
    (hout : outcome (search query choose) s = (.ok (front ++ o :: back), s₁))
    (hfront : ∀ o' ∈ front, ∃ part, s₁.record.applied configure o' = .ok part)
    (ho : s₁.record.applied configure o = .error fault) :
    Always (resolveAllEvents query choose configure) s fun r s' =>
      r = .error fault ∧ s₁.Configures (front ++ s₁.record.reached o) s' := by
  simp only [resolveAllEvents, always_bind]
  rw [always_iff_of_outcome hout]
  simp only [always_notify]
  have h₁ := (Configures.refl s₁).notify (.logsMatched query (front ++ o :: back).length)
  refine (configures_pickLogs_stop h₁.record_eq hfront ho).mono fun r s₂ hpost => ?_
  obtain ⟨rfl, h₂⟩ := hpost
  exact ⟨rfl, h₁.trans h₂⟩

end Query

/-! ### Searching again -/

/-- Where all are known, none is seen for the first time. -/
lemma firstSeen_eq_nil {known as : List Address} (h : ∀ a ∈ as, a ∈ known) :
    firstSeen known as = [] := by
  induction as with
  | nil => rfl
  | cons a as ih =>
    rw [firstSeen, if_pos (h a (by simp)), ih fun a' ha' => h a' (by simp [ha'])]

namespace Session

variable {s s' t : Session} {query : String} {key : ItemKey} {c : Candidate}
  {shown : List Occurrence} {interfaces : List (Address × Interface)}

lemma Settles.mem_known (h : s.Settles key c) : c.log.address ∈ s.known := by
  obtain ⟨-, i, -, hi, -⟩ := h
  by_contra hunknown
  rw [lookup_eq_none_iff.mpr hunknown] at hi
  cases hi

lemma Settles.not_stumbles (h : s.Settles key c) (fault : QueryFault) :
    ¬ s.Stumbles key c fault := by
  obtain ⟨hsource, i, found, hi, hfound⟩ := h
  rintro (⟨hnone | ⟨-, hnone, -⟩⟩ | ⟨hi', hrefuses⟩)
  · exact hsource hnone
  · cases hi.symm.trans hnone
  · cases hi.symm.trans hi'
    cases hfound.symm.trans (Interface.occurrence?_eq_error_iff.mpr hrefuses)

/-- A search for every log, begun in the session, shows these occurrences and leaves these
interfaces remembered. -/
def Sought (s : Session) (query : String) (shown : List Occurrence)
    (interfaces : List (Address × Interface)) : Prop :=
  ∃ s', outcome (Query.search query .every) s = (.ok shown, s') ∧ s'.interfaces = interfaces

/-- Where every candidate can be told, a search succeeds and learns nothing. -/
lemma sought_of_settles (hkey : ItemKey.ofEventQuery query = .ok key)
    (h : ∀ c ∈ s.record.receipt.candidates key, s.Settles key c) :
    s.Sought query ((s.record.receipt.candidates key).filterMap (s.reading? key)) s.interfaces := by
  have hsearch := Query.judges_search (s := s) hkey
  have hasks := Query.inquires_search (s := s) query .every
  unfold Always at hsearch hasks
  rcases hout : outcome (Query.search query .every) s with ⟨fault | os, s'⟩
  · simp only [hout] at hsearch
    obtain ⟨front, c, back, hcs, hjudges, -, hstumbles⟩ := hsearch
    have hc := (h c (by rw [hcs]; simp)).mono hjudges.record_eq hjudges.source_eq hjudges.interfaces
    exact absurd hstumbles (hc.1.not_stumbles fault)
  · simp only [hout] at hsearch hasks
    obtain ⟨hjudges, -, rfl⟩ := hsearch
    obtain ⟨qs, hinquires, -, hcovers⟩ := hasks
    have hseen : firstSeen s.known (s.record.receipt.emitters query) = [] := by
      refine firstSeen_eq_nil fun a ha => ?_
      rw [Receipt.emitters, hkey] at ha
      obtain ⟨c, hc, rfl⟩ := List.mem_map.mp ha
      exact (h c hc).mem_known
    have hnone : qs = [] := List.map_eq_nil_iff.mp ((hcovers _ rfl).trans hseen)
    have hsame : s'.interfaces = s.interfaces := by
      rw [hinquires.interfaces_eq, hnone]
      rfl
    refine ⟨s', ?_, hsame⟩
    rw [hout]
    congr 2
    exact List.filterMap_congr fun c hc =>
      ((h c hc).mono hjudges.record_eq hjudges.source_eq hjudges.interfaces).2

/-- A search is repeated by every session that remembers what it has learnt. -/
lemma Sought.again (h : s.Sought query shown interfaces) (hrecord : t.record = s.record)
    (hsource : t.source = s.source) (hinterfaces : t.interfaces = interfaces) :
    t.Sought query shown interfaces := by
  obtain ⟨s', hout, rfl⟩ := h
  cases hkey : ItemKey.ofEventQuery query with
  | error fault =>
    rw [Query.search, hkey] at hout
    cases congrArg Prod.fst hout
  | ok key =>
    have hsearch := (always_iff_of_outcome hout).mp (Query.judges_search hkey)
    obtain ⟨hjudges, hsettles, rfl⟩ := hsearch
    have hmono (c : Candidate) (hc : c ∈ s.record.receipt.candidates key) :
        t.Settles key c ∧ t.reading? key c = s'.reading? key c :=
      (hsettles c hc).mono (hrecord.trans hjudges.record_eq.symm)
        (hsource.trans hjudges.source_eq.symm) (by rw [hinterfaces]; exact .refl _)
    have hagain := sought_of_settles (s := t) hkey
      (by rw [hrecord]; exact fun c hc => (hmono c hc).1)
    rw [hrecord, List.filterMap_congr fun c hc => (hmono c hc).2, hinterfaces] at hagain
    exact hagain

/-- What a search for chosen logs comes to. -/
lemma Sought.search (h : s.Sought query shown interfaces) (choose : LogChoice) :
    ∃ s₁, outcome (Query.search query choose) s =
        (.ok (shown.filter (s.record.receipt.accepts choose)), s₁) ∧
      s.LooksUp s₁ ∧ s₁.interfaces = interfaces := by
  obtain ⟨s₁, hout, hinterfaces⟩ := h
  have hchosen : outcome (Query.search query choose) s =
      (.ok (shown.filter (s.record.receipt.accepts choose)), s₁) := by
    rw [Query.outcome_search_choice, hout]
    rfl
  have hlooks := (always_iff_of_outcome hchosen).mp (Query.always_search query choose)
  exact ⟨s₁, hchosen, hlooks.1, hinterfaces⟩

lemma Sought.sorted (h : s.Sought query shown interfaces) :
    shown.Pairwise (·.index < ·.index) := by
  obtain ⟨s₁, hout, -⟩ := h
  exact (((always_iff_of_outcome hout).mp (Query.always_search query .every)).2 shown rfl).2

/-! ### One after another -/

/-- In a list in the order of the numbers, only the occurrence itself has its number. -/
lemma filter_index_eq {os : List Occurrence} (h : os.Pairwise (·.index < ·.index))
    {o : Occurrence} (ho : o ∈ os) : os.filter (·.index == o.index) = [o] := by
  induction os with
  | nil => cases ho
  | cons o' os ih =>
    obtain ⟨hlt, hos⟩ := List.pairwise_cons.mp h
    rcases List.mem_cons.mp ho with rfl | ho
    · have hrest : os.filter (·.index == o.index) = [] := by
        refine List.filter_eq_nil_iff.mpr fun o' ho' heq => ?_
        have hgt := hlt o' ho'
        rw [beq_iff_eq] at heq
        omega
      rw [List.filter_cons, if_pos (by simp), hrest]
    · have hne : ¬ (o'.index == o.index) = true := by
        have hgt := hlt o ho
        rw [beq_iff_eq]
        omega
      rw [List.filter_cons, if_neg hne, ih hos ho]

/-- Of the chosen logs, a choice by number takes the one of that number. -/
lemma filter_only (h : shown.Pairwise (·.index < ·.index)) {r : Receipt} {choose : LogChoice}
    {o : Occurrence} (ho : o ∈ shown.filter (r.accepts choose)) :
    shown.filter (r.accepts (choose.only o.index)) = [o] := by
  have honly : r.accepts (choose.only o.index) =
      fun o' => (o'.index == o.index) && r.accepts choose o' := by
    funext o'
    unfold Receipt.accepts LogChoice.only
    cases r.logs[o'.index]? with
    | none => simp
    | some log => simp [Bool.and_comm]
  rw [honly, ← List.filter_filter, filter_index_eq (h.filter _) ho]

variable {choose : LogChoice} {configure : Occurrence → Plan LogPart} {o : Occurrence}

/-- To take one of the chosen logs singly adds what its plan picks, and leaves a session that
searches alike. -/
lemma Sought.perform_only (h : s.Sought query shown interfaces)
    (ho : o ∈ shown.filter (s.record.receipt.accepts choose)) {part : List Span}
    (hpart : s.record.applied configure o = .ok part) :
    ∃ t, s.perform (.resolveEvent query (choose.only o.index) configure) = (.ok (), t) ∧
      t.spans = s.spans ++ part ∧ t.record = s.record ∧ t.interfaces = interfaces ∧
        t.Sought query shown interfaces := by
  obtain ⟨s₁, hout, hlooks, hinterfaces⟩ := h.search (choose.only o.index)
  rw [filter_only h.sorted ho] at hout
  rw [← hlooks.record_eq] at hpart
  obtain ⟨hr, s₂, h₂, ht⟩ := Query.always_resolveEvent_one configure hout
  rw [hpart] at hr ht
  have hrecord : s₂.record = s.record := h₂.record_eq.trans hlooks.record_eq
  have hinterfaces₂ : s₂.interfaces = interfaces := h₂.interfaces_eq.trans hinterfaces
  have hspans : s₂.spans = s.spans := h₂.spans_eq.trans hlooks.spans_eq
  refine ⟨{ s₂ with spans := s₂.spans ++ part }, Prod.ext hr ht, by rw [hspans], hrecord,
    hinterfaces₂, h.again hrecord (h₂.source_eq.trans hlooks.source_eq) hinterfaces₂⟩

/-- What taking the chosen logs singly is, as operations. -/
def singly (query : String) (choose : LogChoice) (configure : Occurrence → Plan LogPart)
    (os : List Occurrence) : List Operation :=
  os.map fun o => .resolveEvent query (choose.only o.index) configure

lemma Sought.performAll_singly {r : Record} (hr : s.record = r)
    (h : s.Sought query shown interfaces) {os : List Occurrence} {parts : List (List Span)}
    (hos : ∀ o ∈ os, o ∈ shown.filter (r.receipt.accepts choose))
    (hparts : List.Forall₂ (fun o part => r.applied configure o = .ok part) os parts) :
    (∀ step ∈ s.steps (singly query choose configure os), (step.1.perform step.2).1 = .ok ()) ∧
      (s.performAll (singly query choose configure os)).spans = s.spans ++ parts.flatten ∧
      (os ≠ [] → (s.performAll (singly query choose configure os)).interfaces = interfaces) := by
  induction hparts generalizing s with
  | nil => exact ⟨fun _ h => (by cases h), (List.append_nil _).symm, fun h => absurd rfl h⟩
  | @cons o part os parts ho hrest ih =>
    subst hr
    obtain ⟨t, hperform, hspans, hrecord, hinterfaces, hsought⟩ :=
      h.perform_only (hos _ (by simp)) ho
    obtain ⟨hsteps, hmore, hlast⟩ := ih hrecord hsought fun o ho => hos o (by simp [ho])
    simp only [singly, List.map_cons, steps, performAll, List.foldl_cons, hperform]
    refine ⟨List.forall_mem_cons.mpr ⟨by rw [hperform], hsteps⟩, ?_, fun _ => ?_⟩
    · rw [List.flatten_cons, ← List.append_assoc, ← hspans]
      exact hmore
    · cases os with
      | nil => exact hinterfaces
      | cons o os => exact hlast (by simp)

/-! ### Both queries -/

lemma Finds.exists_sought {os : List Occurrence} (h : s.Finds query choose os) :
    ∃ shown s₁, outcome (Query.search query choose) s = (.ok os, s₁) ∧
      s.Sought query shown s₁.interfaces ∧ s.LooksUp s₁ ∧
        os = shown.filter (s.record.receipt.accepts choose) := by
  obtain ⟨s₁, hout⟩ : ∃ s₁, outcome (Query.search query choose) s = (.ok os, s₁) :=
    ⟨_, Prod.ext h rfl⟩
  have hlooks := ((always_iff_of_outcome hout).mp (Query.always_search query choose)).1
  rcases hevery : outcome (Query.search query .every) s with ⟨fault | shown, s'⟩
  · rw [Query.outcome_search_choice, hevery] at hout
    cases congrArg Prod.fst hout
  · have hfilter := hout
    rw [Query.outcome_search_choice, hevery] at hfilter
    cases hfilter
    exact ⟨shown, s', hout, ⟨s', hevery, rfl⟩, hlooks, rfl⟩

lemma configuredSince_eq {os : List Occurrence} (h : s.LooksUp s') (h' : s'.Configures os t)
    (spans : List Span) : s.configuredSince { t with spans } = os := by
  obtain ⟨-, -, deeds, hj, hnone⟩ := h.later
  obtain ⟨-, -, deeds', hj', rfl⟩ := h'
  have hall : t.journal.toList.drop s.journal.toList.length = deeds ++ deeds' := by
    rw [hj', hj, List.append_assoc, List.drop_left]
  rw [configuredSince, hall, List.filterMap_append, hnone, List.nil_append]

/-- How a query for one log and the query for all logs, both begun in `s`, stand to each other. -/
structure Agrees (s : Session) (query : String) (choose : LogChoice)
    (configure : Occurrence → Plan LogPart) (one all : Except QueryFault Unit × Session) :
    Prop where
  /-- Where no log is found, both succeed and gather nothing. -/
  none : s.Finds query choose [] →
    (one.1 = .ok () ∧ one.2.spans = s.spans) ∧ all.1 = .ok () ∧ all.2.spans = s.spans
  /-- Where one log is found, both end alike. -/
  single : ∀ o, s.Finds query choose [o] → one.1 = all.1 ∧ one.2.spans = all.2.spans
  /-- Where several logs are found, the query for one fails and runs no plan. -/
  several : ∀ os, s.Finds query choose os → 2 ≤ os.length →
    one.1 = .error (.ambiguousEvent query os.length) ∧ one.2.spans = s.spans ∧
      s.configuredSince one.2 = []
  /-- Where the query for all succeeds, so does each query for one of the logs, and together they
  leave the same. -/
  singly : ∀ os, s.Finds query choose os → os ≠ [] → all.1 = .ok () →
    (∀ step ∈ s.steps (Session.singly query choose configure os),
      (step.1.perform step.2).1 = .ok ()) ∧
    (s.performAll (Session.singly query choose configure os)).spans = all.2.spans ∧
    (s.performAll (Session.singly query choose configure os)).interfaces = all.2.interfaces
  /-- Where a plan is the first that fails, the query for all ends with its fault. -/
  stops : ∀ front o back fault, s.Finds query choose (front ++ o :: back) →
    (∀ o' ∈ front, ∃ part, s.record.applied configure o' = .ok part) →
    s.record.applied configure o = .error fault →
    all.1 = .error fault ∧ all.2.spans = s.spans ∧
    (∀ n, Query.logNode s.record o.index = .ok n → s.configuredSince all.2 = front ++ [o]) ∧
    (∀ fault', Query.logNode s.record o.index = .error fault' → s.configuredSince all.2 = front)

lemma perform_of_none (configure : Occurrence → Plan LogPart) (h : s.Finds query choose []) :
    ((s.perform (.resolveEvent query choose configure)).1 = .ok () ∧
      (s.perform (.resolveEvent query choose configure)).2.spans = s.spans) ∧
    (s.perform (.resolveAllEvents query choose configure)).1 = .ok () ∧
      (s.perform (.resolveAllEvents query choose configure)).2.spans = s.spans := by
  obtain ⟨shown, s₁, hout, -, hlooks, -⟩ := h.exists_sought
  have hone : Always (Query.resolveEvent query choose configure) s fun r s' =>
      r = .ok () ∧ s'.spans = s.spans := by
    simp only [Query.resolveEvent, always_bind]
    rw [always_iff_of_outcome hout]
    exact ⟨rfl, hlooks.spans_eq⟩
  obtain ⟨hall, s₂, h₂, ht⟩ := Query.always_resolveAllEvents configure hout .nil
  have hspans : s₂.spans ++ [] = s.spans := by
    rw [List.append_nil, h₂.spans_eq, hlooks.spans_eq]
  exact ⟨hone, hall, (congrArg Session.spans ht).trans hspans⟩

lemma perform_of_single (configure : Occurrence → Plan LogPart) (h : s.Finds query choose [o]) :
    (s.perform (.resolveEvent query choose configure)).1 =
      (s.perform (.resolveAllEvents query choose configure)).1 ∧
    (s.perform (.resolveEvent query choose configure)).2.spans =
      (s.perform (.resolveAllEvents query choose configure)).2.spans := by
  obtain ⟨shown, s₁, hout, -, hlooks, -⟩ := h.exists_sought
  obtain ⟨hone, s₂, h₂, ht⟩ := Query.always_resolveEvent_one configure hout
  have hspans := congrArg Session.spans ht
  cases ho : s₁.record.applied configure o with
  | error fault =>
    rw [ho] at hone hspans
    have hnone : ∀ o' ∈ ([] : List Occurrence), ∃ part, s₁.record.applied configure o' = .ok part :=
      fun _ h => by cases h
    obtain ⟨hall, h₃⟩ := Query.always_resolveAllEvents_stop hout hnone ho
    refine ⟨hone.trans hall.symm, hspans.trans ?_⟩
    exact (List.append_nil _).trans (h₂.spans_eq.trans h₃.spans_eq.symm)
  | ok part =>
    rw [ho] at hone hspans
    obtain ⟨hall, s₃, h₃, ht₃⟩ := Query.always_resolveAllEvents configure hout (.cons ho .nil)
    refine ⟨hone.trans hall.symm, hspans.trans (.trans ?_ (congrArg Session.spans ht₃).symm)⟩
    rw [h₂.spans_eq, h₃.spans_eq, List.flatten_cons, List.flatten_nil, List.append_nil]
    rfl

lemma perform_of_several (configure : Occurrence → Plan LogPart) {os : List Occurrence}
    (h : s.Finds query choose os) (hmany : 2 ≤ os.length) :
    (s.perform (.resolveEvent query choose configure)).1 =
        .error (.ambiguousEvent query os.length) ∧
      (s.perform (.resolveEvent query choose configure)).2.spans = s.spans ∧
        s.configuredSince (s.perform (.resolveEvent query choose configure)).2 = [] := by
  obtain ⟨shown, s₁, hout, -, hlooks, -⟩ := h.exists_sought
  have hone : Always (Query.resolveEvent query choose configure) s fun r s' =>
      r = .error (.ambiguousEvent query os.length) ∧ s' = s₁ := by
    simp only [Query.resolveEvent, always_bind]
    rw [always_iff_of_outcome hout]
    rcases os with _ | ⟨o, _ | ⟨o', os⟩⟩
    · simp at hmany
    · simp at hmany
    · exact ⟨rfl, rfl⟩
  obtain ⟨hr, ht⟩ := hone
  refine ⟨hr, (congrArg Session.spans ht).trans hlooks.spans_eq, ?_⟩
  rw [show (s.perform (.resolveEvent query choose configure)).2 = s₁ from ht]
  exact configuredSince_eq hlooks (.refl s₁) s₁.spans

/-- If the query for all succeeds, all plans do. -/
lemma exists_parts_of_ok {os : List Occurrence}
    (hout : outcome (Query.search query choose) s = (.ok os, s'))
    (hall : (s.perform (.resolveAllEvents query choose configure)).1 = .ok ()) :
    ∃ parts, List.Forall₂ (fun o part => s'.record.applied configure o = .ok part) os parts := by
  rcases s'.record.applied_or configure os with hparts | ⟨front, o, back, fault, rfl, hfront, ho⟩
  · exact hparts
  · obtain ⟨hfault, -⟩ := Query.always_resolveAllEvents_stop hout hfront ho
    cases hall.symm.trans hfault

lemma perform_singly {os : List Occurrence} (h : s.Finds query choose os) (hos : os ≠ [])
    (hall : (s.perform (.resolveAllEvents query choose configure)).1 = .ok ()) :
    (∀ step ∈ s.steps (singly query choose configure os), (step.1.perform step.2).1 = .ok ()) ∧
    (s.performAll (singly query choose configure os)).spans =
      (s.perform (.resolveAllEvents query choose configure)).2.spans ∧
    (s.performAll (singly query choose configure os)).interfaces =
      (s.perform (.resolveAllEvents query choose configure)).2.interfaces := by
  obtain ⟨shown, s₁, hout, hsought, hlooks, hshown⟩ := h.exists_sought
  obtain ⟨parts, hparts⟩ := exists_parts_of_ok hout hall
  obtain ⟨-, s₂, h₂, ht⟩ := Query.always_resolveAllEvents configure hout hparts
  obtain ⟨hsteps, hspans, hinterfaces⟩ := hsought.performAll_singly hlooks.record_eq.symm
    (fun o ho => by rwa [hlooks.record_eq, ← hshown]) hparts
  refine ⟨hsteps, hspans.trans (.trans ?_ (congrArg Session.spans ht).symm),
    (hinterfaces hos).trans (.trans ?_ (congrArg Session.interfaces ht).symm)⟩
  · rw [h₂.spans_eq, hlooks.spans_eq]
  · exact h₂.interfaces_eq.symm

lemma perform_of_fault {front back : List Occurrence} {fault : QueryFault}
    (h : s.Finds query choose (front ++ o :: back))
    (hfront : ∀ o' ∈ front, ∃ part, s.record.applied configure o' = .ok part)
    (ho : s.record.applied configure o = .error fault) :
    (s.perform (.resolveAllEvents query choose configure)).1 = .error fault ∧
      (s.perform (.resolveAllEvents query choose configure)).2.spans = s.spans ∧
        s.configuredSince (s.perform (.resolveAllEvents query choose configure)).2 =
          front ++ s.record.reached o := by
  obtain ⟨shown, s₁, hout, -, hlooks, -⟩ := h.exists_sought
  rw [← hlooks.record_eq] at hfront ho
  obtain ⟨hall, h₂⟩ := Query.always_resolveAllEvents_stop hout hfront ho
  rw [← hlooks.record_eq]
  exact ⟨hall, h₂.spans_eq.trans hlooks.spans_eq, configuredSince_eq hlooks h₂ _⟩

/-- **To query for one log and to query for all agree.** They end alike where no log or one is
found, and where several are found the query for one refuses before it runs a plan. Where the query
for all succeeds, queries for each of the logs by its number, one after another, leave the same
ranges and the same interfaces; where it fails, it ends with the fault of the first plan that does
and gathers nothing. -/
theorem resolveEvent_agrees (s : Session) (query : String) (choose : LogChoice)
    (configure : Occurrence → Plan LogPart) : s.Agrees query choose configure
      (s.perform (.resolveEvent query choose configure))
      (s.perform (.resolveAllEvents query choose configure)) where
  none := perform_of_none configure
  single _ := perform_of_single configure
  several _ := perform_of_several configure
  singly _ := perform_singly
  stops front o back fault h hfront ho := by
    obtain ⟨hall, hspans, hconfigured⟩ := perform_of_fault h hfront ho
    refine ⟨hall, hspans, fun n hn => ?_, fun fault' hn => ?_⟩
    · rw [hconfigured, Record.reached, hn]
      rfl
    · rw [hconfigured, Record.reached, hn, Except.toOption, Option.toList_none, List.map_nil,
        List.append_nil]

end Session

/-! ### A search that finds several logs -/

/-- The notes that a search finds. -/
def notesFound : List Occurrence :=
  (outcome (Query.search "Note" .every) noteSession).1.toOption.get
    (by rw [noteSession_eq]; decide +kernel)

/-- Picks the emitter of a note; from the second note also an argument that there is not. -/
def brokenPlan (o : Occurrence) : Plan LogPart :=
  if o.index = 1 then .inOrder [(.address, false), (.argument "why", false)] else .single .address

lemma noteSession_finds : noteSession.Finds "Note" .every notesFound :=
  eq_ok_of_toOption (Option.some_get _).symm

/-- They are the three notes, and where the plan breaks off is at the second. -/
lemma notesFound_picks : notesFound.map (·.index) = [0, 1, 2] ∧
    notesFound.map (noteSession.record.applied brokenPlan) =
      [.ok [⟨672, 32⟩], .error (.unknownArgument "why" "event Note(address,uint8)"),
        .ok [⟨1120, 32⟩]] ∧
    (Query.logNode noteSession.record 1).toOption.isSome = true := by
  unfold notesFound
  simp only [noteSession_eq]
  decide +kernel

/-- Three notes are found. To query for one of them is refused; by their numbers they leave, one
after another, what they leave together; and a plan that breaks off at the second ends the query for
all of them there. -/
theorem noteSession_agrees :
    noteSession.Finds "Note" .every notesFound ∧ notesFound.map (·.index) = [0, 1, 2] ∧
    ((noteSession.perform (.resolveEvent "Note" .every notePlan)).1 =
        .error (.ambiguousEvent "Note" 3) ∧
      noteSession.configuredSince
        (noteSession.perform (.resolveEvent "Note" .every notePlan)).2 = []) ∧
    ((noteSession.performAll (Session.singly "Note" .every notePlan notesFound)).spans =
        [⟨672, 32⟩, ⟨800, 32⟩, ⟨864, 32⟩, ⟨896, 32⟩, ⟨1024, 32⟩, ⟨1088, 32⟩, ⟨1120, 32⟩, ⟨1248, 32⟩,
          ⟨1312, 32⟩] ∧
      (noteSession.performAll (Session.singly "Note" .every notePlan notesFound)).interfaces =
        (noteSession.perform (.resolveAllEvents "Note" .every notePlan)).2.interfaces) ∧
    (noteSession.perform (.resolveAllEvents "Note" .every brokenPlan)).1 =
        .error (.unknownArgument "why" "event Note(address,uint8)") ∧
      (noteSession.perform (.resolveAllEvents "Note" .every brokenPlan)).2.spans =
        noteSession.spans ∧
      noteSession.configuredSince
        (noteSession.perform (.resolveAllEvents "Note" .every brokenPlan)).2 =
          notesFound.take 2 := by
  have hagrees := noteSession.resolveEvent_agrees "Note" .every notePlan
  have hbroken := noteSession.resolveEvent_agrees "Note" .every brokenPlan
  obtain ⟨hindices, happlied, hnode⟩ := notesFound_picks
  have hlength : notesFound.length = 3 := by
    rw [← List.length_map Occurrence.index, hindices]
    rfl
  obtain ⟨hone, -, hnothing⟩ := hagrees.several notesFound noteSession_finds (by omega)
  rw [hlength] at hone
  obtain ⟨-, hspans, hinterfaces⟩ := hagrees.singly notesFound noteSession_finds
    (List.ne_nil_of_length_pos (by omega)) noteSession_gathers.1
  refine ⟨noteSession_finds, hindices, ⟨hone, hnothing⟩,
    ⟨hspans.trans noteSession_gathers.2, hinterfaces⟩, ?_⟩
  have hfinds := noteSession_finds
  obtain ⟨o, o', o'', hfound⟩ := List.length_eq_three.mp hlength
  rw [hfound] at hindices happlied hfinds ⊢
  simp only [List.map_cons, List.map_nil, List.cons.injEq, and_true] at hindices happlied
  obtain ⟨n, hn⟩ := Option.isSome_iff_exists.mp hnode
  obtain ⟨hfault, hkept, hran, -⟩ := hbroken.stops [o] o' [o''] _ hfinds
    (by simpa using ⟨_, happlied.1⟩) happlied.2.1
  refine ⟨hfault, hkept, hran n ?_⟩
  rw [hindices.2.1]
  exact eq_ok_of_toOption hn

end AbiSpan
