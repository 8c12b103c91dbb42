import AbiSpan.Proofs.Event.Finding
import AbiSpan.Proofs.Session.Questions

/-!
What a search finds, whatever the caller chooses.

A search puts before the caller's choice just the logs that the interfaces of their emitters read
as occurrences of a named event, each once and in the order of the receipt. The choice decides which
of them are handed out and nothing else: what is asked, what is remembered, and whether the search
fails and how, are the same for every choice. So a search is described once, for the choice that
takes every log, and its result for any other is filtered out of that.
-/

namespace AbiSpan

/-- What the choice says to an occurrence, when it is shown the log that stands under its number. -/
def Receipt.accepts (r : Receipt) (choose : LogChoice) (o : Occurrence) : Bool :=
  (r.logs[o.index]?).any fun log => choose log o.values o.index

/-- A log that was put before the caller's choice, and the values shown with it. -/
def Deed.judged? : Deed → Option (Nat × LogValues)
  | .judged index values => some (index, values)
  | _ => none

namespace Session

/-- The session `s'` is `s` after it may have looked up interfaces and has put these occurrences, in
this order, before the caller's choice. -/
structure Judges (s : Session) (os : List Occurrence) (s' : Session) : Prop extends
    s.Stays s' where
  journal_eq : ∃ deeds, s'.journal.toList = s.journal.toList ++ deeds ∧
    deeds.filterMap Deed.judged? = os.map fun o => (o.index, o.values)

/-- The session gives no interface of the contract, and this is why. -/
inductive Lacks (s : Session) (a : Address) : QueryFault → Prop
  | noSource : s.source = none → Lacks s a .noSource
  /-- The source, asked about the contract last of all, has given no interface. -/
  | unanswered {source : Source} {earlier : List Address} {q : Question} :
    s.source = some source → s.interfaces.lookup a = none →
    s.journal.asked = earlier ++ [a] →
    q = s.record.library.question a (source.answer earlier a) → q.learns? = none → Lacks s a q.fault

/-- The session cannot tell of a candidate which event it is of, and this is why. -/
inductive Stumbles (s : Session) (key : ItemKey) (c : Candidate) : QueryFault → Prop
  | lacks {fault : QueryFault} : s.Lacks c.log.address fault → Stumbles s key c fault
  | refuses {i : Interface} {fault : LogFault} : s.interfaces.lookup c.log.address = some i →
    i.Refuses s.record.library key c.log c.hash fault →
    Stumbles s key c (.undecodableLog c.index c.log.address.checksummed fault.message)

/-- The session can tell of a candidate which event it is of, if of any. -/
def Settles (s : Session) (key : ItemKey) (c : Candidate) : Prop :=
  s.source ≠ none ∧ ∃ i found, s.interfaces.lookup c.log.address = some i ∧
    i.occurrence? s.record.library key c.log c.hash = .ok found

/-- The occurrence that a candidate is, by the interface that the session remembers. -/
def reading? (s : Session) (key : ItemKey) (c : Candidate) : Option Occurrence :=
  (s.interfaces.lookup c.log.address).bind fun i =>
    (i.occurrence? s.record.library key c.log c.hash).toOption.join.map fun found =>
      { index := c.index, event := found.1, values := found.2 }

variable {s s' s'' : Session} {os os' : List Occurrence} {key : ItemKey} {c : Candidate}

namespace Judges

lemma refl (s : Session) : s.Judges [] s := ⟨.refl s, [], by simp, rfl⟩

lemma trans (h : s.Judges os s') (h' : s'.Judges os' s'') : s.Judges (os ++ os') s'' := by
  obtain ⟨hstays, deeds, hj, hd⟩ := h
  obtain ⟨hstays', deeds', hj', hd'⟩ := h'
  exact ⟨hstays.trans hstays', deeds ++ deeds', by simp [hj', hj], by simp [hd, hd']⟩

/-- Writing down what puts no log before the choice. -/
lemma write (h : s.Judges os s') {d : Deed} (hd : d.judged? = none) :
    s.Judges os { s' with journal := s'.journal.push d } := by
  obtain ⟨hstays, deeds, hj, hdeeds⟩ := h
  exact ⟨hstays.write d, deeds ++ [d], by simp [hj], by simp [hdeeds, hd]⟩

lemma judge (h : s.Judges os s') (o : Occurrence) :
    s.Judges (os ++ [o]) { s' with journal := s'.journal.push (.judged o.index o.values) } := by
  obtain ⟨hstays, deeds, hj, hdeeds⟩ := h
  exact ⟨hstays.write _, deeds ++ [.judged o.index o.values], by simp [hj], by
    simp [hdeeds, Deed.judged?]⟩

lemma remember (h : s.Judges os s') {a : Address} (ha : s'.interfaces.lookup a = none)
    (i : Interface) : s.Judges os { s' with interfaces := (a, i) :: s'.interfaces } := by
  obtain ⟨⟨hrecord, hsource, hspans, htrees, hgains⟩, hjournal⟩ := h
  exact ⟨⟨hrecord, hsource, hspans, htrees, hgains.trans (.cons ha i)⟩, hjournal⟩

end Judges

/-- What is told of a candidate is told of it later on. -/
lemma Settles.mono (h : s.Settles key c) (hrecord : s'.record = s.record)
    (hsource : s'.source = s.source) (hgains : Gains s.interfaces s'.interfaces) :
    s'.Settles key c ∧ s'.reading? key c = s.reading? key c := by
  obtain ⟨hsome, i, found, hi, hfound⟩ := h
  have hi' := hgains.lookup _ _ hi
  exact ⟨⟨hsource ▸ hsome, i, found, hi', hrecord ▸ hfound⟩,
    by rw [reading?, reading?, hrecord, hi, hi']⟩

end Session

namespace Query

open Session

variable {s : Session}

/-- A lookup puts no log before the choice. It gives the interface that is then remembered, and none
is given just where there is none to be had. -/
lemma judges_interfaceOf (a : Address) : Always (interfaceOf a) s fun r s' =>
    s.Judges [] s' ∧ match r with
      | .ok i => s'.source ≠ none ∧ s'.interfaces.lookup a = some i
      | .error fault => s'.Lacks a fault := by
  refine (lookup_interfaceOf a).mono fun r s' hlookup => ?_
  have hasked := (Judges.refl s).write (d := .asked a) rfl
  have hlast : Journal.asked (s.journal.push (.asked a)) = s.journal.asked ++ [a] := by
    simp [Journal.asked, Deed.asked?]
  cases hlookup with
  | noSource hnone => exact ⟨.refl s, .noSource hnone⟩
  | cached hsource hi => exact ⟨((Judges.refl s).write rfl).write rfl, hsource, hi⟩
  | @failed source fault hsource hnone hanswer =>
    exact ⟨hasked, .unanswered (q := s.record.library.question a (.error fault)) hsource hnone
      hlast (by rw [hanswer]) rfl⟩
  | @garbled source text hsource hnone hanswer hi =>
    exact ⟨hasked, .unanswered (q := s.record.library.question a (.ok text)) hsource hnone hlast
      (by rw [hanswer]) hi⟩
  | fetched hsource hnone _ _ =>
    exact ⟨((hasked.write rfl).remember hnone _).write rfl, by simp [hsource], by simp⟩

lemma judges_examine (key : ItemKey) (c : Candidate) :
    Always (examine key .every c) s fun r s' =>
      match r with
      | .ok found => s.Judges found.toList s' ∧ s'.Settles key c ∧ found = s'.reading? key c
      | .error fault => s.Judges [] s' ∧ s'.Stumbles key c fault := by
  simp only [examine, always_bind, always_record]
  refine (judges_interfaceOf c.log.address).mono fun r s1 hpost => ?_
  obtain ⟨h1, hr⟩ := hpost
  cases r with
  | error fault => exact ⟨h1, .lacks hr⟩
  | ok i =>
    obtain ⟨hsome, hi⟩ := hr
    cases ho : i.occurrence? s1.record.library key c.log c.hash with
    | error fault =>
      simp only [ho, always_throw]
      exact ⟨h1, .refuses hi (Interface.occurrence?_eq_error_iff.mp ho)⟩
    | ok found =>
      have hsettles : s1.Settles key c := ⟨hsome, i, found, hi, ho⟩
      cases found with
      | none =>
        simp only [ho, always_pure]
        exact ⟨h1, hsettles, by simp [reading?, hi, ho, Except.toOption]⟩
      | some found =>
        obtain ⟨event, values⟩ := found
        simp only [ho, always_bind, always_write, always_pure, LogChoice.every, if_true]
        exact ⟨h1.judge { index := c.index, event, values }, hsettles,
          by simp [reading?, hi, ho, Except.toOption]⟩

/-- Candidates are examined in order, up to the first that cannot be told. -/
lemma judges_examineAll (key : ItemKey) (cs : List Candidate) :
    Always (examineAll key .every cs) s fun r s' =>
      match r with
      | .ok os => s.Judges os s' ∧ (∀ c ∈ cs, s'.Settles key c) ∧
          os = cs.filterMap (s'.reading? key)
      | .error fault => ∃ front c back, cs = front ++ c :: back ∧
          s.Judges (front.filterMap (s'.reading? key)) s' ∧ (∀ c ∈ front, s'.Settles key c) ∧
            s'.Stumbles key c fault := by
  induction cs generalizing s with
  | nil => exact ⟨.refl s, fun _ hc => (by cases hc), rfl⟩
  | cons c cs ih =>
    simp only [examineAll, always_bind]
    refine (judges_examine key c).mono fun r s1 hpost => ?_
    cases r with
    | error fault =>
      obtain ⟨h1, hstumbles⟩ := hpost
      exact ⟨[], c, cs, rfl, h1, fun _ hc => (by cases hc), hstumbles⟩
    | ok found =>
      obtain ⟨h1, hsettles, hfound⟩ := hpost
      have hcons (s2 : Session) (front : List Candidate)
          (h2 : s1.Judges (front.filterMap (s2.reading? key)) s2) :
          s.Judges ((c :: front).filterMap (s2.reading? key)) s2 ∧ s2.Settles key c ∧
            (c :: front).filterMap (s2.reading? key) =
              found.toList ++ front.filterMap (s2.reading? key) := by
        obtain ⟨hsettles2, hreading⟩ := hsettles.mono h2.record_eq h2.source_eq h2.interfaces
        have hall : (c :: front).filterMap (s2.reading? key) =
            found.toList ++ front.filterMap (s2.reading? key) := by
          rw [hfound, ← hreading, List.filterMap_cons]
          cases s2.reading? key c <;> rfl
        exact ⟨hall ▸ h1.trans h2, hsettles2, hall⟩
      refine ih.mono fun r s2 hpost => ?_
      cases r with
      | error fault =>
        obtain ⟨front, c', back, rfl, h2, hfront, hstumbles⟩ := hpost
        obtain ⟨h, hc, -⟩ := hcons s2 front h2
        exact ⟨c :: front, c', back, rfl, h, List.forall_mem_cons.mpr ⟨hc, hfront⟩, hstumbles⟩
      | ok os =>
        obtain ⟨h2, hcs, rfl⟩ := hpost
        obtain ⟨h, hc, hall⟩ := hcons s2 cs h2
        exact ⟨hall ▸ h, List.forall_mem_cons.mpr ⟨hc, hcs⟩, hall.symm⟩

/-! ### The choice decides nothing else -/

lemma examine_choice (key : ItemKey) (choose : LogChoice) (r : Receipt) {c : Candidate}
    (hc : r.logs[c.index]? = some c.log) :
    examine key choose c = Option.filter (r.accepts choose) <$> examine key .every c := by
  unfold examine
  rw [map_bind]
  refine congrArg _ (funext fun i => ?_)
  rw [map_bind]
  refine congrArg _ (funext fun own => ?_)
  cases i.occurrence? own.library key c.log c.hash with
  | error fault => rfl
  | ok found =>
    cases found with
    | none => rfl
    | some found =>
      have haccepts : r.accepts choose { index := c.index, event := found.1, values := found.2 } =
          choose c.log found.2 c.index := by rw [Receipt.accepts, hc, Option.any_some]
      simp only [map_bind, map_pure, LogChoice.every, if_true, Option.filter_some, haccepts]

lemma examineAll_choice (key : ItemKey) (choose : LogChoice) (r : Receipt) {cs : List Candidate}
    (hcs : ∀ c ∈ cs, r.logs[c.index]? = some c.log) :
    examineAll key choose cs = List.filter (r.accepts choose) <$> examineAll key .every cs := by
  induction cs with
  | nil => rfl
  | cons c cs ih =>
    have htoList (found : Option Occurrence) : (found.filter (r.accepts choose)).toList =
        found.toList.filter (r.accepts choose) := by
      cases found with
      | none => rfl
      | some o => cases h : r.accepts choose o <;> simp [h]
    rw [examineAll, examineAll, examine_choice key choose r (hcs c (by simp)),
      ih fun c hc => hcs c (by simp [hc])]
    simp only [map_bind, bind_map_left, map_pure, List.filter_append, htoList]

/-- A search examines the candidates that its key leaves. -/
lemma outcome_search {query : String} {key : ItemKey} (hkey : ItemKey.ofEventQuery query = .ok key)
    (choose : LogChoice) : outcome (search query choose) s =
      outcome (examineAll key choose (s.record.receipt.candidates key)) s := by
  rw [search, hkey]
  rfl

/-- **The choice filters, and decides nothing else.** -/
lemma outcome_search_choice (query : String) (choose : LogChoice) :
    outcome (search query choose) s =
      ((outcome (search query .every) s).1.map (List.filter (s.record.receipt.accepts choose)),
        (outcome (search query .every) s).2) := by
  cases hkey : ItemKey.ofEventQuery query with
  | error fault =>
    rw [search, search, hkey]
    rfl
  | ok key =>
    rw [outcome_search hkey, outcome_search hkey, examineAll_choice key choose s.record.receipt
      fun c hc => Receipt.log_of_mem_candidates hc, outcome_map]

end Query

/-! ### What is found -/

/-- The key that a query fails to be. -/
lemma ItemKey.ofEventQuery_error {query : String} {fault : QueryFault}
    (h : ItemKey.ofEventQuery query = .error fault) :
    ∃ digits, Text.trim query.toList = '0' :: 'x' :: digits ∧
      (∀ b, Hex.decode? digits = some b → b.length ≠ wordSize) ∧
      fault = .badSignatureHex (.ofList (Text.trim query.toList)) := by
  rw [ofEventQuery, ofString] at h
  unfold ofTrimmed at h
  split at h
  · rename_i digits htrim
    refine ⟨digits, htrim, ?_⟩
    cases hb : Hex.decode? digits with
    | none =>
      simp only [hb, Except.error.injEq] at h
      exact ⟨fun _ hb' => (by cases hb'), h.symm⟩
    | some b =>
      by_cases hlen : b.length = wordSize
      · simp [hb, hlen] at h
      · simp only [hb, hlen, if_false, Except.error.injEq] at h
        refine ⟨?_, h.symm⟩
        rintro _ ⟨⟩
        exact hlen
  · split at h <;> cases h

namespace Session

/-- The occurrence is a log of the receipt that has a topic, and is of its event by the interface
that the session remembers of the emitter. -/
def Shows (s : Session) (key : ItemKey) (o : Occurrence) : Prop :=
  ∃ log hash i, s.record.receipt.logs[o.index]? = some log ∧ log.topics.head? = some hash ∧
    s.interfaces.lookup log.address = some i ∧
      i.Finds s.record.library key log hash o.event o.values

variable {s s' : Session} {key : ItemKey} {c : Candidate} {o : Occurrence}

lemma reading?_eq_some_iff : s.reading? key c = some o ↔ o.index = c.index ∧
    ∃ i, s.interfaces.lookup c.log.address = some i ∧
      i.Finds s.record.library key c.log c.hash o.event o.values := by
  simp only [reading?, Option.bind_eq_some_iff, Option.map_eq_some_iff]
  constructor
  · rintro ⟨i, hi, found, hfound, rfl⟩
    refine ⟨rfl, i, hi, Interface.occurrence?_eq_some_iff.mp (eq_ok_of_toOption ?_)⟩
    exact Option.join_eq_some_iff.mp hfound
  · rintro ⟨hindex, i, hi, hfinds⟩
    refine ⟨i, hi, (o.event, o.values), ?_, by rw [← hindex]⟩
    rw [Interface.occurrence?_eq_some_iff.mpr hfinds]
    rfl

lemma exists_reading_iff :
    (∃ c ∈ s.record.receipt.candidates key, s.reading? key c = some o) ↔ s.Shows key o := by
  constructor
  · rintro ⟨c, hc, ho⟩
    obtain ⟨hlog, hhead, -⟩ := Receipt.mem_candidates.mp hc
    obtain ⟨hindex, i, hi, hfinds⟩ := reading?_eq_some_iff.mp ho
    exact ⟨c.log, c.hash, i, hindex ▸ hlog, hhead, hi, hfinds⟩
  · rintro ⟨log, hash, i, hlog, hhead, hi, hfinds⟩
    refine ⟨{ index := o.index, log, hash }, ?_, reading?_eq_some_iff.mpr ⟨rfl, i, hi, hfinds⟩⟩
    exact Receipt.mem_candidates.mpr ⟨hlog, hhead, hfinds.names_hash⟩

/-! ### Whole searches -/

/-- Between `s` and `s'` the caller's choice was put to these occurrences, each once and in the
order of the receipt, and they are all that `s'` shows with such numbers. -/
structure Puts (s : Session) (key : ItemKey) (numbers : Nat → Prop) (shown : List Occurrence)
    (s' : Session) : Prop where
  sorted : shown.Pairwise (·.index < ·.index)
  mem_iff : ∀ o, o ∈ shown ↔ s'.Shows key o ∧ numbers o.index
  journal_eq : ∃ deeds, s'.journal.toList = s.journal.toList ++ deeds ∧
    deeds.filterMap Deed.judged? = shown.map fun o => (o.index, o.values)

/-- Candidates up to some number have been put before the choice. -/
lemma puts_of_judges {front : List Candidate} {numbers : ℕ → Prop}
    (h : s.Judges (front.filterMap (s'.reading? key)) s')
    (hsorted : front.Pairwise (·.index < ·.index))
    (hfront : ∀ c, c ∈ front ↔ c ∈ s.record.receipt.candidates key ∧ numbers c.index) :
    s.Puts key numbers (front.filterMap (s'.reading? key)) s' where
  sorted := by
    refine hsorted.filterMap _ fun c c' hlt o ho o' ho' => ?_
    rw [(reading?_eq_some_iff.mp ho).1, (reading?_eq_some_iff.mp ho').1]
    exact hlt
  mem_iff o := by
    rw [List.mem_filterMap, ← exists_reading_iff, h.record_eq]
    constructor
    · rintro ⟨c, hc, ho⟩
      obtain ⟨hcandidate, hnumber⟩ := (hfront c).mp hc
      exact ⟨⟨c, hcandidate, ho⟩, (reading?_eq_some_iff.mp ho).1 ▸ hnumber⟩
    · rintro ⟨⟨c, hcandidate, ho⟩, hnumber⟩
      exact ⟨c, (hfront c).mpr ⟨hcandidate, (reading?_eq_some_iff.mp ho).1 ▸ hnumber⟩, ho⟩
  journal_eq := h.journal_eq

/-- What a search for events, begun in `s`, comes to when it ends with `r` in `s'`. -/
structure Searched (s : Session) (query : String) (choose : LogChoice)
    (r : Except QueryFault (List Occurrence)) (s' : Session) : Prop extends s.Stays s' where
  /-- What is handed out are the chosen logs among all that are shown, in order. -/
  found : ∀ os, r = .ok os → ∃ key shown, ItemKey.ofEventQuery query = .ok key ∧
    s.Puts key (fun _ => True) shown s' ∧
    os = shown.filter (s.record.receipt.accepts choose) ∧
    os.Pairwise (·.index < ·.index) ∧
    (∀ o, o ∈ os ↔ s'.Shows key o ∧ s.record.receipt.accepts choose o = true) ∧
    -- no log is passed over that an interface of its emitter could tell of
    ∀ (index : Nat) log hash, s.record.receipt.logs[index]? = some log →
      log.topics.head? = some hash → ∀ i e values,
        Interface.Finds i s.record.library key log hash e values →
          ∃ i', s'.interfaces.lookup log.address = some i'
  /-- A search fails for what is no key, or at the first log that cannot be told. -/
  failed : ∀ fault, r = .error fault →
    (∃ digits, Text.trim query.toList = '0' :: 'x' :: digits ∧
      (∀ b, Hex.decode? digits = some b → b.length ≠ wordSize) ∧
      fault = .badSignatureHex (.ofList (Text.trim query.toList)) ∧ s' = s) ∨
    ∃ key c shown, ItemKey.ofEventQuery query = .ok key ∧
      c ∈ s.record.receipt.candidates key ∧ s'.Stumbles key c fault ∧
      (∀ c' ∈ s.record.receipt.candidates key, c'.index < c.index → s'.Settles key c') ∧
      s.Puts key (· < c.index) shown s'
  /-- Every choice leaves the session that the choice of every log leaves, and the result is
  filtered out of the result for that one. -/
  filtered : r = (outcome (Query.search query .every) s).1.map
      (List.filter (s.record.receipt.accepts choose)) ∧
    s' = (outcome (Query.search query .every) s).2

end Session

namespace Query

open Session

variable {s : Session} {query : String}

/-- A search for every log, of which all others are filters. -/
lemma judges_search {key : ItemKey} (hkey : ItemKey.ofEventQuery query = .ok key) :
    Always (search query .every) s fun r s' =>
      match r with
      | .ok os => s.Judges os s' ∧ (∀ c ∈ s.record.receipt.candidates key, s'.Settles key c) ∧
          os = (s.record.receipt.candidates key).filterMap (s'.reading? key)
      | .error fault => ∃ front c back, s.record.receipt.candidates key = front ++ c :: back ∧
          s.Judges (front.filterMap (s'.reading? key)) s' ∧ (∀ c ∈ front, s'.Settles key c) ∧
            s'.Stumbles key c fault := by
  simp only [search, always_bind, always_ofExcept, hkey, always_record]
  exact judges_examineAll key _

end Query

namespace Session

variable {s s' : Session} {query : String} {choose : LogChoice} {key : ItemKey}

/-- The candidates before one of them are those with smaller numbers. -/
lemma mem_front_iff {cs front back : List Candidate} {c : Candidate}
    (hcs : cs = front ++ c :: back) (hsorted : cs.Pairwise (·.index < ·.index)) (c' : Candidate) :
    c' ∈ front ↔ c' ∈ cs ∧ c'.index < c.index := by
  subst hcs
  obtain ⟨-, hback, hfront⟩ := List.pairwise_append.mp hsorted
  constructor
  · intro hc'
    exact ⟨List.mem_append_left _ hc', hfront c' hc' c (by simp)⟩
  · rintro ⟨hc', hlt⟩
    rcases List.mem_append.mp hc' with hc' | hc'
    · exact hc'
    · rcases List.mem_cons.mp hc' with rfl | hc'
      · omega
      · have hgt := (List.pairwise_cons.mp hback).1 c' hc'
        omega

lemma searched_of_no_key {fault : QueryFault} (hkey : ItemKey.ofEventQuery query = .error fault) :
    s.Searched query choose (outcome (Query.search query choose) s).1
      (outcome (Query.search query choose) s).2 := by
  have hout (choose' : LogChoice) :
      outcome (Query.search query choose') s = (.error fault, s) := by
    rw [Query.search, hkey]
    rfl
  obtain ⟨digits, htrim, hdigits, hfault⟩ := ItemKey.ofEventQuery_error hkey
  rw [hout choose]
  refine { Stays.refl s with found := fun _ hos => (by cases hos), failed := ?_, filtered := ?_ }
  · rintro _ ⟨⟩
    exact .inl ⟨digits, htrim, hdigits, hfault, rfl⟩
  · rw [hout .every]
    exact ⟨rfl, rfl⟩

lemma searched_of_stumbles {front back : List Candidate} {c : Candidate} {fault : QueryFault}
    (hkey : ItemKey.ofEventQuery query = .ok key)
    (hout : outcome (Query.search query .every) s = (.error fault, s'))
    (hcs : s.record.receipt.candidates key = front ++ c :: back)
    (hjudges : s.Judges (front.filterMap (s'.reading? key)) s')
    (hfront : ∀ c ∈ front, s'.Settles key c) (hstumbles : s'.Stumbles key c fault) :
    s.Searched query choose (.error fault) s' := by
  have hsorted := s.record.receipt.pairwise_candidates key
  have hmem := mem_front_iff hcs hsorted
  refine { hjudges.toStays with found := fun _ hos => (by cases hos), failed := ?_, filtered := ?_ }
  · rintro _ ⟨⟩
    have hfront' : front.Sublist (s.record.receipt.candidates key) := by
      rw [hcs]
      exact List.sublist_append_left _ _
    have hputs : s.Puts key (· < c.index) (front.filterMap (s'.reading? key)) s' :=
      puts_of_judges hjudges (hsorted.sublist hfront') hmem
    exact .inr ⟨key, c, _, hkey, by rw [hcs]; simp, hstumbles,
      fun c' hc' hlt => hfront c' ((hmem c').mpr ⟨hc', hlt⟩), hputs⟩
  · rw [hout]
    exact ⟨rfl, rfl⟩

lemma searched_of_settles (hkey : ItemKey.ofEventQuery query = .ok key)
    (hout : outcome (Query.search query .every) s =
      (.ok ((s.record.receipt.candidates key).filterMap (s'.reading? key)), s'))
    (hjudges : s.Judges ((s.record.receipt.candidates key).filterMap (s'.reading? key)) s')
    (hsettles : ∀ c ∈ s.record.receipt.candidates key, s'.Settles key c) :
    s.Searched query choose (.ok (((s.record.receipt.candidates key).filterMap
      (s'.reading? key)).filter (s.record.receipt.accepts choose))) s' := by
  have hputs : s.Puts key (fun _ => True) _ s' :=
    puts_of_judges hjudges (s.record.receipt.pairwise_candidates key) (by simp)
  refine { hjudges.toStays with found := ?_, failed := fun _ h => (by cases h), filtered := ?_ }
  · rintro _ ⟨⟩
    refine ⟨key, _, hkey, hputs, rfl, hputs.sorted.filter _, fun o => ?_, ?_⟩
    · rw [List.mem_filter, hputs.mem_iff, and_true]
    · intro index log hash hlog hhead i e values hfinds
      obtain ⟨-, i', found, hi', -⟩ := hsettles { index, log, hash }
        (Receipt.mem_candidates.mpr ⟨hlog, hhead, hfinds.names_hash⟩)
      exact ⟨i', hi'⟩
  · rw [hout]
    exact ⟨rfl, rfl⟩

/-- **A search is exact and in order, and the choice decides nothing else.** What it hands out are
the logs that the interfaces of their emitters tell to be of a named event and that are chosen, each
once and in the order of the receipt. The choice is asked once about each log that is told to be of
a named event. Whether the search fails and how, and what is learnt, are the same for every
choice. -/
theorem search_exact (s : Session) (query : String) (choose : LogChoice) :
    s.Searched query choose (outcome (Query.search query choose) s).1
      (outcome (Query.search query choose) s).2 := by
  cases hkey : ItemKey.ofEventQuery query with
  | error fault => exact searched_of_no_key hkey
  | ok key =>
    rw [Query.outcome_search_choice]
    have hsearch := Query.judges_search (s := s) hkey
    unfold Always at hsearch
    rcases hout : outcome (Query.search query .every) s with ⟨fault | os, s'⟩
    · simp only [hout] at hsearch
      obtain ⟨front, c, back, hcs, hjudges, hfront, hstumbles⟩ := hsearch
      exact searched_of_stumbles hkey hout hcs hjudges hfront hstumbles
    · simp only [hout] at hsearch
      obtain ⟨hjudges, hsettles, rfl⟩ := hsearch
      exact searched_of_settles hkey hout hjudges hsettles

end Session

end AbiSpan
