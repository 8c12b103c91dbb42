import AbiSpan.Session.Operation
import AbiSpan.Proofs.Event.Finding
import AbiSpan.Proofs.Session.Lookup

/-!
What a search for events does to a session, and what it finds.

A session that has only moved on is `Later`: its record and the ranges it has gathered are the
same, and its journal has grown. The plans that were run over logs on the way are kept apart from
all other deeds. A search runs none, and each occurrence that it finds is a log of the receipt,
read as one of its event; they are found in the order of the receipt.
-/

namespace AbiSpan

/-- How the picks of a plan ended. -/
abbrev Outcomes := List (Except QueryFault Span)

/-- A plan that was run over a log. -/
def Deed.logPick? : Deed → Option (Occurrence × Outcomes)
  | .pickedLog o outcomes => some (o, outcomes)
  | _ => none

/-- The session `s'` is `s` later on, with so many plans run over logs and no range gathered. -/
structure Session.Later (s : Session) (picks : List (Occurrence × Outcomes)) (s' : Session) :
    Prop where
  record_eq : s'.record = s.record
  spans_eq : s'.spans = s.spans
  journal_eq : ∃ deeds, s'.journal.toList = s.journal.toList ++ deeds ∧
    deeds.filterMap Deed.logPick? = picks

namespace Session.Later

variable {s s' s'' : Session} {picks picks' : List (Occurrence × Outcomes)}

lemma refl (s : Session) : s.Later [] s := ⟨rfl, rfl, [], by simp, rfl⟩

lemma trans (h : s.Later picks s') (h' : s'.Later picks' s'') : s.Later (picks ++ picks') s'' := by
  obtain ⟨hr, hs, deeds, hj, hp⟩ := h
  obtain ⟨hr', hs', deeds', hj', hp'⟩ := h'
  exact ⟨hr'.trans hr, hs'.trans hs, deeds ++ deeds', by simp [hj', hj], by simp [hp, hp']⟩

lemma push_pickedLog (h : s.Later picks s') (o : Occurrence) (outcomes : Outcomes) :
    s.Later (picks ++ [(o, outcomes)])
      { s' with journal := s'.journal.push (.pickedLog o outcomes) } := by
  obtain ⟨deeds, hj, hp⟩ := h.journal_eq
  exact ⟨h.record_eq, h.spans_eq, deeds ++ [.pickedLog o outcomes], by simp [hj], by
    rw [List.filterMap_append, hp]
    rfl⟩

end Session.Later

/-- Looking up interfaces runs no plan. -/
lemma Session.LooksUp.later {s s' : Session} (h : s.LooksUp s') : s.Later [] s' := by
  obtain ⟨hstays, deeds, hj, hdeeds⟩ := h
  refine ⟨hstays.record_eq, hstays.spans_eq, deeds, hj, List.filterMap_eq_nil_iff.mpr ?_⟩
  intro d hd
  have hpick := hdeeds d hd
  cases d <;> first | rfl | cases hpick

/-- The choice of every log. -/
def LogChoice.every : LogChoice := fun _ _ _ => true

/-- What an operation looks for events with, and the plans for the logs that it finds. -/
structure LogQuery where
  query : String
  choose : LogChoice
  configure : Occurrence → Plan LogPart

/-- The query of an operation that looks for events. -/
def Operation.logQuery? : Operation → Option LogQuery
  | .resolveEvent query choose configure => some { query, choose, configure }
  | .resolveAllEvents query choose configure => some { query, choose, configure }
  | .eventSignature query choose => some { query, choose, configure := fun _ => .single .signature }
  | .eventArgument query choose name =>
    some { query, choose, configure := fun _ => .single (.argument name) }
  | _ => none

/-- The occurrence is the candidate, read as one of its event, and shows the hash of that. -/
structure Candidate.Shows (c : Candidate) (l : Library) (o : Occurrence) : Prop where
  index_eq : o.index = c.index
  decode_eq : l.decode o.event c.log = .ok o.values
  selector_eq : o.event.anonymous = false → o.event.selector = c.hash

/-- The occurrence is a log of the receipt, read as one of its event, with the hash of that for
topic zero if it has one. -/
def Record.Holds (r : Record) (o : Occurrence) : Prop :=
  ∃ log, r.receipt.logs[o.index]? = some log ∧ r.library.decode o.event log = .ok o.values ∧
    (o.event.anonymous = false → log.topics.head? = some o.event.selector)

/-- A candidate is the log that stands under its number. -/
lemma Receipt.candidate_inv {key : ItemKey} {x : Log × ℕ} {c : Candidate}
    (h : (match x.1.topics.head? with
      | some hash =>
        if key.isHash && !key.names hash.bytes "" "" then none
        else some { index := x.2, log := x.1, hash }
      | none => none : Option Candidate) = some c) : c.log = x.1 ∧ c.index = x.2 := by
  split at h
  · split at h
    · cases h
    · cases h
      exact ⟨rfl, rfl⟩
  · cases h

/-- The candidates are the logs with topics that the key is not against. -/
lemma Receipt.mem_candidates {r : Receipt} {key : ItemKey} {c : Candidate} :
    c ∈ r.candidates key ↔ r.logs[c.index]? = some c.log ∧ c.log.topics.head? = some c.hash ∧
      (key.isHash && !key.names c.hash.bytes "" "") = false := by
  rw [candidates, List.mem_filterMap]
  constructor
  · rintro ⟨⟨log, index⟩, hmem, hc⟩
    have hlog : r.logs[index]? = some log := List.mem_zipIdx_iff_getElem?.mp hmem
    cases hhead : log.topics.head? with
    | none => simp [hhead] at hc
    | some hash =>
      simp only [hhead] at hc
      split at hc
      · cases hc
      · rename_i hkey
        cases hc
        exact ⟨hlog, hhead, by simpa using hkey⟩
  · rintro ⟨hlog, hhead, hkey⟩
    refine ⟨(c.log, c.index), List.mem_zipIdx_iff_getElem?.mpr hlog, ?_⟩
    simp [hhead, hkey]

/-- What a candidate shows, the record holds. -/
lemma Candidate.Shows.holds {c : Candidate} {r : Record} {o : Occurrence} {key : ItemKey}
    (h : c.Shows r.library o) (hc : c ∈ r.receipt.candidates key) : r.Holds o := by
  obtain ⟨hlog, hhead, -⟩ := Receipt.mem_candidates.mp hc
  refine ⟨c.log, h.index_eq ▸ hlog, h.decode_eq, fun ha => ?_⟩
  rw [hhead, h.selector_eq ha]

lemma Receipt.log_of_mem_candidates {r : Receipt} {key : ItemKey} {c : Candidate}
    (h : c ∈ r.candidates key) : r.logs[c.index]? = some c.log := (mem_candidates.mp h).1

/-- The candidates stand in the order of the receipt. -/
lemma Receipt.pairwise_candidates (r : Receipt) (key : ItemKey) :
    (r.candidates key).Pairwise (·.index < ·.index) := by
  have hnumbers : r.logs.zipIdx.Pairwise (·.2 < ·.2) := by
    rw [← List.pairwise_map, List.zipIdx_map_snd]
    exact List.pairwise_lt_range'
  refine hnumbers.filterMap _ fun x y hlt c hc d hd => ?_
  rw [(candidate_inv hc).2, (candidate_inv hd).2]
  exact hlt

namespace Query

variable {s : Session}

/-! ### Searching -/

lemma always_examine (key : ItemKey) (choose : LogChoice) (c : Candidate) :
    Always (examine key choose c) s fun r s' => s.LooksUp s' ∧
      ∀ o, r = .ok (some o) → c.Shows s.record.library o := by
  simp only [examine, always_bind, always_record]
  refine (looksUp_interfaceOf c.log.address).mono fun r s' hpost => ?_
  obtain ⟨hs', -⟩ := hpost
  cases r with
  | error fault => exact ⟨hs', fun _ h => by cases h⟩
  | ok i =>
    rw [hs'.record_eq]
    cases ho : i.occurrence? s.record.library key c.log c.hash with
    | error fault =>
      simp only [ho, always_throw]
      exact ⟨hs', fun _ h => by cases h⟩
    | ok found =>
      cases found with
      | none =>
        simp only [ho, always_pure]
        exact ⟨hs', fun _ h => by cases h⟩
      | some found =>
        obtain ⟨event, values⟩ := found
        simp only [ho, always_bind, always_write, always_pure]
        refine ⟨hs'.write rfl, fun o h => ?_⟩
        by_cases hc : choose c.log values c.index = true
        · simp only [hc, if_true] at h
          cases h
          have hfinds := Interface.occurrence?_eq_some_iff.mp ho
          exact ⟨rfl, hfinds.decode_eq, hfinds.selector_eq⟩
        · simp [hc] at h

lemma always_examineAll (key : ItemKey) (choose : LogChoice) (cs : List Candidate) :
    Always (examineAll key choose cs) s fun r s' => s.LooksUp s' ∧ ∀ os, r = .ok os →
      (∀ o ∈ os, ∃ c ∈ cs, c.Shows s.record.library o) ∧
        (cs.Pairwise (·.index < ·.index) → os.Pairwise (·.index < ·.index)) := by
  induction cs generalizing s with
  | nil =>
    refine ⟨.refl s, ?_⟩
    rintro _ ⟨⟩
    exact ⟨fun _ ho => (by cases ho), fun _ => .nil⟩
  | cons c cs ih =>
    simp only [examineAll, always_bind]
    refine (always_examine key choose c).mono fun r s1 hpost => ?_
    obtain ⟨h1, hfound⟩ := hpost
    cases r with
    | error fault => exact ⟨h1, fun _ h => by cases h⟩
    | ok found =>
      refine ih.mono fun r s2 hpost => ?_
      obtain ⟨h2, hrest⟩ := hpost
      cases r with
      | error fault => exact ⟨h1.trans h2, fun _ h => by cases h⟩
      | ok os =>
        obtain ⟨hos, hsorted⟩ := hrest os rfl
        rw [h1.record_eq] at hos
        have hfirst : ∀ o ∈ found.toList, c.Shows s.record.library o := fun o ho =>
          hfound o (by rw [Option.mem_def.mp (Option.mem_toList.mp ho)])
        refine ⟨h1.trans h2, ?_⟩
        rintro _ ⟨⟩
        refine ⟨fun o ho => ?_, fun hcs => ?_⟩
        · rcases List.mem_append.mp ho with ho | ho
          · exact ⟨c, by simp, hfirst o ho⟩
          · obtain ⟨c', hc', h'⟩ := hos o ho
            exact ⟨c', by simp [hc'], h'⟩
        · obtain ⟨hlt, hcs⟩ := List.pairwise_cons.mp hcs
          refine List.pairwise_append.mpr ⟨?_, hsorted hcs, fun o ho o' ho' => ?_⟩
          · cases found <;> simp
          · obtain ⟨c', hc', h'⟩ := hos o' ho'
            rw [(hfirst o ho).index_eq, h'.index_eq]
            exact hlt c' hc'

/-- A search runs no plan, and finds logs of the receipt in their order. -/
lemma always_search (query : String) (choose : LogChoice) :
    Always (search query choose) s fun r s' => s.LooksUp s' ∧ ∀ os, r = .ok os →
      (∀ o ∈ os, s.record.Holds o) ∧ os.Pairwise (·.index < ·.index) := by
  simp only [search, always_bind, always_ofExcept]
  cases ItemKey.ofEventQuery query with
  | error fault => exact ⟨.refl s, fun _ h => by cases h⟩
  | ok key =>
    simp only [always_record]
    refine (always_examineAll key choose _).mono fun r s' hpost => ?_
    obtain ⟨hs', hfound⟩ := hpost
    refine ⟨hs', fun os hos => ?_⟩
    obtain ⟨hmem, hsorted⟩ := hfound os hos
    refine ⟨fun o ho => ?_, hsorted (Receipt.pairwise_candidates _ key)⟩
    obtain ⟨c, hc, hshows⟩ := hmem o ho
    exact hshows.holds hc

end Query

end AbiSpan
