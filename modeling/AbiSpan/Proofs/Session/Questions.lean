import AbiSpan.Proofs.Quiet
import AbiSpan.Proofs.Session.Adding

/-!
Questions put to the source of interfaces, and what is learnt from the answers.

`Learns` says of two sessions what stands between them: which questions were put, that only
answers that are interfaces were kept, and that no question is about a contract whose interface
was known by then. This composes, whatever sources are installed on the way. Within one operation
more is true, and this is `Inquires`: all answers come from the one source, each may depend on all
questions before, and an answer that is no interface ends the operation.
-/

namespace AbiSpan

/-- A question that was put to a source, and its answer. -/
structure Question where
  address : Address
  answer : Except LookupFault String
  /-- The interface that the answer is the text of, if it is one. -/
  learns? : Option Interface

/-- The question about a contract that was answered so, as the library reads the answer. -/
def Library.question (l : Library) (a : Address) (answer : Except LookupFault String) : Question :=
  { address := a, answer, learns? := answer.toOption.bind l.interface? }

@[simp]
lemma Library.address_question (l : Library) (a : Address) (answer : Except LookupFault String) :
    (l.question a answer).address = a := rfl

namespace Question

/-- What is remembered from the answer. -/
def gain? (q : Question) : Option (Address × Interface) := q.learns?.map (q.address, ·)

/-- The fault of an answer that is no interface. -/
def fault (q : Question) : QueryFault :=
  match q.answer with
  | .error fault => .lookup fault
  | .ok _ => .badInterface q.address.checksummed "not the interface of a contract"

end Question

/-- The answers of a source to questions about these addresses, one after another, when it has been
asked about the `earlier` ones. -/
def Source.answers (source : Source) (l : Library) :
    (earlier : List Address) → List Address → List Question
  | _, [] => []
  | earlier, a :: as =>
    l.question a (source.answer earlier a) :: source.answers l (earlier ++ [a]) as

/-- The emitters of the logs that a query may name, in the order of the receipt. What is no query
names none. -/
def Receipt.emitters (r : Receipt) (query : String) : List Address :=
  match ItemKey.ofEventQuery query with
  | .error _ => []
  | .ok key => (r.candidates key).map (·.log.address)

/-- The addresses that are not yet known, each where it occurs first. -/
def firstSeen : (known : List Address) → List Address → List Address
  | _, [] => []
  | known, a :: as =>
    if a ∈ known then firstSeen known as else a :: firstSeen (a :: known) as

namespace Deed

/-- The address that an interface was fetched for. -/
def fetched? : Deed → Option Address
  | .noted (.interfaceFetched a _ _) => some a
  | _ => none

/-- Asking a source, keeping an interface and reporting it as available. -/
def ofLookup : Deed → Bool
  | .asked _ | .noted (.interfaceFetched ..) | .noted (.interfaceReady ..) => true
  | _ => false

lemma ofLookup_noted {n : Notice} (h : n.onInterface = false) : (noted n).ofLookup = false := by
  cases n <;> first | rfl | cases h

lemma asked?_eq_none {d : Deed} (h : d.ofLookup = false) : d.asked? = none := by
  cases d <;> first | rfl | cases h

lemma fetched?_eq_none {d : Deed} (h : d.ofLookup = false) : d.fetched? = none := by
  cases d with
  | noted n => cases n <;> first | rfl | cases h
  | _ => rfl

lemma filterMap_asked? {deeds : List Deed} (h : ∀ d ∈ deeds, d.ofLookup = false) :
    deeds.filterMap asked? = [] :=
  List.filterMap_eq_nil_iff.mpr fun d hd => asked?_eq_none (h d hd)

lemma filterMap_fetched? {deeds : List Deed} (h : ∀ d ∈ deeds, d.ofLookup = false) :
    deeds.filterMap fetched? = [] :=
  List.filterMap_eq_nil_iff.mpr fun d hd => fetched?_eq_none (h d hd)

end Deed

/-- Wherever an interface is reported as available, it is of a known address, and the count
reported with it is the number of addresses known by then: those known from the start and those
fetched since. -/
def CountsFrom (known : List Address) (deeds : List Deed) : Prop :=
  ∀ before a n after, deeds = before ++ .noted (.interfaceReady a n) :: after →
    n = known.length + (before.filterMap Deed.fetched?).length ∧
      (a ∈ known ∨ a ∈ before.filterMap Deed.fetched?)

namespace Session

/-- The addresses of the interfaces that the session remembers, the latest first. -/
def known (s : Session) : List Address := s.interfaces.map (·.1)

/-- What the source of the session answers to questions about these addresses. -/
def answers (s : Session) (as : List Address) : List Question :=
  match s.source with
  | none => []
  | some source => source.answers s.record.library s.journal.asked as

/-- The questions that an operation puts to the source of the session, with their answers. -/
def questions (s : Session) (op : Operation) : List Question :=
  s.answers ((s.perform op).2.journal.asked.drop s.journal.asked.length)

/-- Between the sessions `s` and `s'` these questions were put. -/
structure Learns (s : Session) (qs : List Question) (s' : Session) : Prop where
  interfaces_eq : s'.interfaces = (qs.filterMap Question.gain?).reverse ++ s.interfaces
  /-- No question is about a contract that is known. -/
  unknown : ∀ q ∈ qs, q.address ∉ s.known
  once : qs.Pairwise fun q q' => q.learns?.isSome = true → q'.address ≠ q.address
  journal_eq : ∃ deeds, s'.journal.toList = s.journal.toList ++ deeds ∧
    deeds.filterMap Deed.asked? = qs.map (·.address) ∧
    deeds.filterMap Deed.fetched? = (qs.filterMap Question.gain?).map (·.1) ∧
    CountsFrom s.known deeds

/-- A part of an operation, begun in `s`, puts these questions and ends with `r` in `s'`. -/
structure Inquires {α : Type} (s : Session) (qs : List Question) (r : Except QueryFault α)
    (s' : Session) : Prop extends s.Learns qs s' where
  record_eq : s'.record = s.record
  source_eq : s'.source = s.source
  answers_eq : qs = s.answers (qs.map (·.address))
  /-- An answer that is no interface is the last, and its fault that of the operation. -/
  ends : ∀ front q back, qs = front ++ q :: back → q.learns? = none →
    back = [] ∧ r = .error q.fault

end Session

/-! ### Counting -/

section Counting

variable {known : List Address} {deeds deeds' : List Deed}

lemma countsFrom_of_no_report (h : ∀ a n, .noted (.interfaceReady a n) ∉ deeds) :
    CountsFrom known deeds := by
  intro before a n after heq
  exact absurd (by rw [heq]; simp) (h a n)

lemma countsFrom_of_no_lookup (h : ∀ d ∈ deeds, d.ofLookup = false) : CountsFrom known deeds :=
  countsFrom_of_no_report fun a n hmem => by cases h _ hmem

lemma CountsFrom.append (h : CountsFrom known deeds)
    (h' : CountsFrom ((deeds.filterMap Deed.fetched?).reverse ++ known) deeds') :
    CountsFrom known (deeds ++ deeds') := by
  intro before a n after heq
  rcases List.append_eq_append_iff.mp heq with ⟨rest, rfl, hrest⟩ | ⟨rest, hdeeds, hrest⟩
  · -- the report stands behind the first deeds
    obtain ⟨hn, ha⟩ := h' rest a n after hrest
    simp only [List.length_append, List.length_reverse, List.mem_append, List.mem_reverse] at hn ha
    rw [List.filterMap_append, List.length_append]
    refine ⟨by omega, ?_⟩
    rw [List.mem_append]
    tauto
  · cases rest with
    | nil =>
      rw [List.nil_append] at hrest
      rw [List.append_nil] at hdeeds
      subst hdeeds
      obtain ⟨hn, ha⟩ := h' [] a n after hrest.symm
      simp only [List.length_append, List.length_reverse, List.mem_append, List.mem_reverse,
        List.filterMap_nil, List.length_nil, List.not_mem_nil, or_false] at hn ha
      exact ⟨by omega, ha.symm⟩
    | cons d rest =>
      rw [List.cons_append, List.cons.injEq] at hrest
      obtain ⟨rfl, -⟩ := hrest
      exact h before a n rest hdeeds

end Counting

namespace Question

variable {q : Question} {qs : List Question}

lemma gain?_eq_none_iff : q.gain? = none ↔ q.learns? = none := by
  simp [gain?]

lemma gain?_of_learns {i : Interface} (h : q.learns? = some i) :
    q.gain? = some (q.address, i) := by
  simp [gain?, h]

/-- The addresses of what is remembered are those asked about and answered by interfaces. -/
lemma mem_entries {a : Address} : a ∈ (qs.filterMap gain?).map (·.1) ↔
    ∃ q ∈ qs, q.address = a ∧ q.learns?.isSome = true := by
  simp only [List.mem_map, List.mem_filterMap, gain?, Option.map_eq_some_iff]
  constructor
  · intro h
    rcases h with ⟨_, ⟨q, hq, i, hi, rfl⟩, rfl⟩
    exact ⟨q, hq, rfl, by simp [hi]⟩
  · intro h
    rcases h with ⟨q, hq, rfl, hi⟩
    obtain ⟨i, hi⟩ := Option.isSome_iff_exists.mp hi
    exact ⟨_, ⟨q, hq, i, hi, rfl⟩, rfl⟩

end Question

namespace Session

variable {s s' s'' : Session} {qs qs' : List Question}

lemma lookup_eq_none_iff {a : Address} : s.interfaces.lookup a = none ↔ a ∉ s.known := by
  unfold known
  generalize s.interfaces = entries
  induction entries with
  | nil => simp
  | cons entry entries ih =>
    rw [List.lookup_cons]
    by_cases h : a = entry.1
    · simp [h]
    · simp [h, ih, beq_eq_false_iff_ne.mpr h]

/-- Only what has nothing to do with interfaces lies between the two sessions. -/
structure Silent (s s' : Session) : Prop where
  record_eq : s'.record = s.record
  source_eq : s'.source = s.source
  interfaces_eq : s'.interfaces = s.interfaces
  journal_eq : ∃ deeds, s'.journal.toList = s.journal.toList ++ deeds ∧
    ∀ d ∈ deeds, d.ofLookup = false

namespace Silent

lemma refl (s : Session) : s.Silent s := ⟨rfl, rfl, rfl, [], by simp, by simp⟩

lemma trans (h : s.Silent s') (h' : s'.Silent s'') : s.Silent s'' := by
  obtain ⟨hrecord, hsource, hinterfaces, deeds, hj, hdeeds⟩ := h
  obtain ⟨hrecord', hsource', hinterfaces', deeds', hj', hdeeds'⟩ := h'
  refine ⟨hrecord'.trans hrecord, hsource'.trans hsource, hinterfaces'.trans hinterfaces,
    deeds ++ deeds', by simp [hj', hj], fun d hd => ?_⟩
  rcases List.mem_append.mp hd with hd | hd
  · exact hdeeds d hd
  · exact hdeeds' d hd

lemma write (h : s.Silent s') {d : Deed} (hd : d.ofLookup = false) :
    s.Silent { s' with journal := s'.journal.push d } :=
  h.trans ⟨rfl, rfl, rfl, [d], by simp, by simpa using hd⟩

lemma gather (h : s.Silent s') (spans : List Span) :
    s.Silent { s' with spans := s'.spans ++ spans } :=
  ⟨h.record_eq, h.source_eq, h.interfaces_eq, h.journal_eq⟩

lemma keepTrees (h : s.Silent s') (trees : CallScope.Located) :
    s.Silent { s' with callTrees := trees } :=
  ⟨h.record_eq, h.source_eq, h.interfaces_eq, h.journal_eq⟩

/-- Notices that are quiet about interfaces. -/
lemma noted (s : Session) {ns : Array Notice} (hns : Quiet ns) :
    s.Silent { s with journal := s.journal ++ ns.map Deed.noted } := by
  refine ⟨rfl, rfl, rfl, ns.toList.map .noted, by simp, fun d hd => ?_⟩
  obtain ⟨n, hn, rfl⟩ := List.mem_map.mp hd
  exact Deed.ofLookup_noted (hns n (by simpa using hn))

end Silent

/-! ### Putting questions together -/

namespace Learns

lemma known_eq (h : s.Learns qs s') :
    s'.known = ((qs.filterMap Question.gain?).map (·.1)).reverse ++ s.known := by
  rw [known, h.interfaces_eq, List.map_append, List.map_reverse, known]

lemma asked_eq (h : s.Learns qs s') :
    s'.journal.asked = s.journal.asked ++ qs.map (·.address) := by
  obtain ⟨deeds, hj, hasked, -⟩ := h.journal_eq
  rw [Journal.asked, hj, List.filterMap_append, hasked, Journal.asked]

lemma of_interfaces_eq (hinterfaces : s'.interfaces = s.interfaces) {deeds : List Deed}
    (hj : s'.journal.toList = s.journal.toList ++ deeds)
    (hdeeds : ∀ d ∈ deeds, d.ofLookup = false) :
    s.Learns [] s' where
  interfaces_eq := by simpa using hinterfaces
  unknown _ hq := by cases hq
  once := .nil
  journal_eq := ⟨deeds, hj, Deed.filterMap_asked? hdeeds, Deed.filterMap_fetched? hdeeds,
    countsFrom_of_no_lookup hdeeds⟩

lemma trans (h : s.Learns qs s') (h' : s'.Learns qs' s'') : s.Learns (qs ++ qs') s'' where
  interfaces_eq := by
    rw [h'.interfaces_eq, h.interfaces_eq, List.filterMap_append, List.reverse_append,
      List.append_assoc]
  unknown q hq := by
    rcases List.mem_append.mp hq with hq | hq
    · exact h.unknown q hq
    · have hnot := h'.unknown q hq
      rw [h.known_eq, List.mem_append, not_or] at hnot
      exact hnot.2
  once := by
    refine List.pairwise_append.mpr ⟨h.once, h'.once, fun q hq q' hq' hlearns heq => ?_⟩
    refine h'.unknown q' hq' ?_
    rw [h.known_eq, List.mem_append, List.mem_reverse, Question.mem_entries]
    exact .inl ⟨q, hq, heq.symm, hlearns⟩
  journal_eq := by
    obtain ⟨deeds, hj, hasked, hfetched, hcounts⟩ := h.journal_eq
    obtain ⟨deeds', hj', hasked', hfetched', hcounts'⟩ := h'.journal_eq
    refine ⟨deeds ++ deeds', by simp [hj', hj], ?_, ?_, hcounts.append ?_⟩
    · rw [List.filterMap_append, hasked, hasked', List.map_append]
    · rw [List.filterMap_append, hfetched, hfetched', List.filterMap_append, List.map_append]
    · rwa [hfetched, ← h.known_eq]

end Learns

lemma Silent.learns (h : s.Silent s') : s.Learns [] s' := by
  obtain ⟨-, -, hinterfaces, deeds, hj, hdeeds⟩ := h
  exact .of_interfaces_eq hinterfaces hj hdeeds

end Session

lemma Source.answers_append (source : Source) (l : Library) (earlier as bs : List Address) :
    source.answers l earlier (as ++ bs) =
      source.answers l earlier as ++ source.answers l (earlier ++ as) bs := by
  induction as generalizing earlier with
  | nil => simp [answers]
  | cons a as ih => simp [answers, ih]

namespace Session

variable {α β : Type} {s s' s'' : Session} {qs qs' : List Question}

lemma answers_append (h : s.Learns qs s') (hrecord : s'.record = s.record)
    (hsource : s'.source = s.source) (as : List Address) :
    s.answers (qs.map (·.address) ++ as) = s.answers (qs.map (·.address)) ++ s'.answers as := by
  unfold answers
  rw [hrecord, hsource, h.asked_eq]
  cases s.source with
  | none => rfl
  | some source => exact source.answers_append _ _ _ _

lemma answers_nil (s : Session) : s.answers [] = [] := by
  unfold answers
  cases s.source <;> rfl

/-- Where no question is put, nothing is said of how it ends. -/
lemma Learns.inquires (h : s.Learns [] s') (hrecord : s'.record = s.record)
    (hsource : s'.source = s.source) (r : Except QueryFault α) : s.Inquires [] r s' :=
  { h with
    record_eq := hrecord
    source_eq := hsource
    answers_eq := s.answers_nil.symm
    ends := fun front q back heq => by simp at heq }

lemma Silent.inquires (h : s.Silent s') (r : Except QueryFault α) : s.Inquires [] r s' :=
  h.learns.inquires h.record_eq h.source_eq r

namespace Inquires

/-- One part of an operation after another. -/
lemma bind {a : α} {r : Except QueryFault β} (h : s.Inquires qs (.ok a : Except QueryFault α) s')
    (h' : s'.Inquires qs' r s'') : s.Inquires (qs ++ qs') r s'' :=
  { h.toLearns.trans h'.toLearns with
    record_eq := h'.record_eq.trans h.record_eq
    source_eq := h'.source_eq.trans h.source_eq
    answers_eq := by
      rw [List.map_append, answers_append h.toLearns h.record_eq h.source_eq, ← h.answers_eq,
        ← h'.answers_eq]
    ends := fun front q back heq hq => by
      rcases List.append_eq_append_iff.mp heq with ⟨rest, rfl, hrest⟩ | ⟨rest, hqs, hrest⟩
      · exact h'.ends rest q back hrest hq
      · cases rest with
        | nil => exact h'.ends [] q back hrest.symm hq
        | cons q' rest =>
          -- a question before the last part was answered, or that part would not have come
          rw [List.cons_append, List.cons.injEq] at hrest
          obtain ⟨rfl, -⟩ := hrest
          obtain ⟨-, hr⟩ := h.ends front q rest hqs hq
          cases hr }

/-- Where all goes well, nothing is said of how it ends. -/
lemma of_ok {a : α} (h : s.Inquires qs (.ok a : Except QueryFault α) s')
    (r : Except QueryFault β) : s.Inquires qs r s' := by
  have hnext := h.bind ((Silent.refl s').inquires r)
  rwa [List.append_nil] at hnext

lemma silent {a : α} (h : s.Inquires qs (.ok a : Except QueryFault α) s') (h' : s'.Silent s'')
    (r : Except QueryFault β) : s.Inquires qs r s'' := by
  have hnext := h.bind (h'.inquires r)
  rwa [List.append_nil] at hnext

/-- A fault is passed on. -/
lemma of_error {fault : QueryFault} (h : s.Inquires qs (.error fault : Except QueryFault α) s') :
    s.Inquires qs (.error fault : Except QueryFault β) s' :=
  { h with
    ends := fun front q back heq hq => by
      obtain ⟨hback, hr⟩ := h.ends front q back heq hq
      cases hr
      exact ⟨hback, rfl⟩ }

end Inquires

/-- The questions are about the addresses that are not yet known, each where it occurs first, up to
where the computation ended. -/
def Covers (known as : List Address) (qs : List Question) (r : Except QueryFault α) : Prop :=
  qs.map (·.address) <+: firstSeen known as ∧
    ∀ a, r = .ok a → qs.map (·.address) = firstSeen known as

end Session

lemma firstSeen_cons (known : List Address) (a : Address) (as : List Address) :
    firstSeen known (a :: as) =
      firstSeen known [a] ++ firstSeen ((firstSeen known [a]).reverse ++ known) as := by
  by_cases h : a ∈ known <;> simp [firstSeen, h]

namespace Session.Covers

variable {α β : Type} {known as : List Address} {a : Address} {qs qs' : List Question}

/-- Once all addresses are covered, it does not matter how it ends. -/
lemma of_eq (h : qs.map (·.address) = firstSeen known as) (r : Except QueryFault α) :
    Covers known as qs r := ⟨h ▸ List.prefix_rfl, fun _ _ => h⟩

lemma of_error {fault : QueryFault}
    (h : Covers known [a] qs (.error fault : Except QueryFault α)) (as : List Address) :
    Covers known (a :: as) qs (.error fault : Except QueryFault β) := by
  rw [Covers, firstSeen_cons]
  exact ⟨h.1.trans (List.prefix_append _ _), fun _ h => by cases h⟩

lemma cons {r : Except QueryFault β} (h' : Covers ((firstSeen known [a]).reverse ++ known) as qs' r)
    (h : qs.map (·.address) = firstSeen known [a]) :
    Covers known (a :: as) (qs ++ qs') r := by
  obtain ⟨hfront, hall⟩ := h'
  rw [Covers, firstSeen_cons, List.map_append, h]
  exact ⟨(List.prefix_append_right_inj _).mpr hfront, fun b hb => by rw [hall b hb]⟩

end Session.Covers

/-- In a computation that did not fail every question was answered by an interface. -/
lemma Session.Inquires.entries_eq {α : Type} {s s' : Session} {qs : List Question} {a : α}
    (h : s.Inquires qs (.ok a : Except QueryFault α) s') :
    (qs.filterMap Question.gain?).map (·.1) = qs.map (·.address) := by
  have hall : ∀ q ∈ qs, ∃ i, q.learns? = some i := by
    intro q hq
    refine Option.ne_none_iff_exists'.mp fun hnone => ?_
    obtain ⟨front, back, rfl⟩ := List.append_of_mem hq
    obtain ⟨-, hr⟩ := h.ends front q back rfl hnone
    cases hr
  clear h
  induction qs with
  | nil => rfl
  | cons q qs ih =>
    obtain ⟨i, hi⟩ := hall q (by simp)
    rw [List.filterMap_cons_some (Question.gain?_of_learns hi), List.map_cons, List.map_cons,
      ih fun q' hq' => hall q' (by simp [hq'])]

end AbiSpan
