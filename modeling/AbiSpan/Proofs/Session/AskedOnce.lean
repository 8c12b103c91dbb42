import AbiSpan.Proofs.Session.Asking
import AbiSpan.Proofs.Session.CallPicks

/-!
Over a whole run, a contract is asked about until its interface is known, and never again.

The operations of a run follow one another with whatever sources are installed between them, and
sources may answer the same question differently each time. What was learnt from each operation
composes to what is known at the end: the interfaces remembered are just those that answers gave,
and whoever looks one up later is given that one.
-/

namespace AbiSpan

/-- Where no key stands twice, every entry is found. -/
lemma lookup_of_mem {κ β : Type} [BEq κ] [LawfulBEq κ] {l : List (κ × β)} {k : κ} {v : β}
    (hnodup : (l.map (·.1)).Nodup) (h : (k, v) ∈ l) : l.lookup k = some v := by
  obtain ⟨front, back, rfl⟩ := List.append_of_mem h
  rw [List.map_append, List.nodup_append] at hnodup
  refine List.lookup_eq_some_iff.mpr ⟨front, back, rfl, fun entry hentry => ?_⟩
  have hne := hnodup.2.2 entry.1 (List.mem_map_of_mem hentry) k (by simp)
  simpa using hne.symm

namespace Session

/-- The questions that a run of operations puts, with their answers. -/
def allQuestions (s : Session) (ops : List Operation) : List Question :=
  (s.steps ops).flatMap fun step => step.1.questions step.2

/-- From here on, whatever is learnt besides and whatever source is installed, a lookup of the
address gives the interface and asks nothing. -/
def Gives (s : Session) (a : Address) (i : Interface) : Prop :=
  ∀ s' source, Gains s.interfaces s'.interfaces → s'.source = some source →
    ∃ s'', outcome (Query.interfaceOf a) s' = (.ok i, s'') ∧ s''.journal.asked = s'.journal.asked

/-- What a run of operations asks, learns and remembers, from a session that has just been
opened. -/
structure AsksOnce (s : Session) (ops : List Operation) : Prop where
  /-- The journal has the questions of the operations, in order. -/
  asked_eq : (s.performAll ops).journal.asked = (s.allQuestions ops).map (·.address)
  /-- A question that is answered by an interface is the last about its contract. -/
  once : (s.allQuestions ops).Pairwise fun q q' =>
    q.learns?.isSome = true → q'.address ≠ q.address
  /-- From then on the contract has that interface. -/
  gives : ∀ q ∈ s.allQuestions ops, ∀ i, q.learns? = some i →
    (s.performAll ops).Gives q.address i
  /-- A question that is not is the last of its operation, which ends with the fault of the
  answer. -/
  ends : ∀ step ∈ s.steps ops, ∀ front q back, step.1.questions step.2 = front ++ q :: back →
    q.learns? = none → back = [] ∧ (step.1.perform step.2).1 = .error q.fault
  /-- Just what was learnt is remembered, each contract once. -/
  interfaces_eq : (s.performAll ops).interfaces =
    ((s.allQuestions ops).filterMap Question.gain?).reverse
  known_nodup : (s.performAll ops).known.Nodup
  /-- A contract was asked about as often as it was asked in vain, and once more if it is known. -/
  count_asked : ∀ a, (s.performAll ops).journal.asked.count a =
    (s.allQuestions ops).countP (fun q => q.address == a && q.learns?.isNone) +
      if a ∈ (s.performAll ops).known then 1 else 0
  /-- The journal reports the contracts learnt, and the count reported with each interface that is
  available is the number of those that had been learnt. -/
  fetched_eq : (s.performAll ops).journal.toList.filterMap Deed.fetched? =
    ((s.allQuestions ops).filterMap Question.gain?).map (·.1)
  counts : CountsFrom [] (s.performAll ops).journal.toList
  /-- The questions of a query for events are about the emitters of its candidates that were not
  known, each where it occurs first in the receipt, and about all of them unless the search
  fails. -/
  covers : ∀ step ∈ s.steps ops, ∀ l, step.2.logQuery? = some l →
    (step.1.questions step.2).map (·.address) <+:
        firstSeen step.1.known (s.record.receipt.emitters l.query) ∧
      (((step.1.perform step.2).1 = .ok () ∨ ∃ os, step.1.Finds l.query l.choose os) →
        (step.1.questions step.2).map (·.address) =
          firstSeen step.1.known (s.record.receipt.emitters l.query))

variable {s : Session}

/-! ### Composing the operations -/

lemma learns_performAll (s : Session) (ops : List Operation) :
    s.Learns (s.allQuestions ops) (s.performAll ops) := by
  induction ops generalizing s with
  | nil => exact .of_interfaces_eq rfl (List.append_nil _).symm (by simp)
  | cons op ops ih => exact (s.learns_perform op).1.trans (ih (s.perform op).2)

/-- What was learnt is kept once for each contract. -/
lemma Learns.nodup_entries {s' : Session} {qs : List Question} (h : s.Learns qs s') :
    ((qs.filterMap Question.gain?).map (·.1)).Nodup := by
  rw [List.Nodup, List.pairwise_map]
  refine h.once.filterMap _ fun q q' hne entry hentry entry' hentry' => ?_
  obtain ⟨i, hi, rfl⟩ := Option.map_eq_some_iff.mp hentry
  obtain ⟨i', -, rfl⟩ := Option.map_eq_some_iff.mp hentry'
  exact fun heq => hne (by simp [hi]) heq.symm

/-- A lookup of what is known gives what is remembered. -/
lemma gives_of_lookup {a : Address} {i : Interface} (h : s.interfaces.lookup a = some i) :
    s.Gives a i := by
  intro s' source hgains hsource
  have hcached := hgains.lookup a i h
  have halways : Always (Query.interfaceOf a) s' fun r s'' =>
      r = .ok i ∧ s''.journal.asked = s'.journal.asked := by
    simp only [Query.interfaceOf, always_bind, always_get, hsource, hcached, Query.always_notify,
      always_pure]
    exact ⟨trivial, by simp [Journal.asked, Deed.asked?]⟩
  exact ⟨_, Prod.ext halways.1 rfl, halways.2⟩

/-- Questions about a contract: those asked in vain, and those whose answers are kept. -/
lemma count_address (qs : List Question) (a : Address) : (qs.map (·.address)).count a =
    qs.countP (fun q => q.address == a && q.learns?.isNone) +
      ((qs.filterMap Question.gain?).map (·.1)).count a := by
  induction qs with
  | nil => rfl
  | cons q qs ih =>
    rw [List.map_cons, List.count_cons, ih, List.countP_cons]
    cases hq : q.learns? with
    | none =>
      rw [List.filterMap_cons_none (Question.gain?_eq_none_iff.mpr hq)]
      simp only [Option.isNone_none, Bool.and_true]
      omega
    | some i =>
      rw [List.filterMap_cons_some (Question.gain?_of_learns hq), List.map_cons, List.count_cons]
      simp only [Option.isNone_some, Bool.and_false, Bool.false_eq_true, if_false]
      omega

/-- A session that has been opened knows no interface, and its journal tells of none. -/
lemma lookups_of_ofEncoded {tx : Transaction} {receipt : Receipt} {encoded : Bytes}
    {settings : Settings} {library : Library}
    (h : Session.ofEncoded tx receipt encoded settings library = .ok s) :
    s.interfaces = [] ∧ ∀ d ∈ s.journal.toList, d.ofLookup = false := by
  obtain ⟨notices, hr, hfresh⟩ := ofEncoded_inv h
  rw [hfresh]
  refine ⟨rfl, fun d hd => ?_⟩
  obtain ⟨n, hn, rfl⟩ := List.mem_map.mp hd
  exact Deed.ofLookup_noted (Record.quiet_ofEncoded hr n hn)

/-- **Interfaces are asked for until they are known, and then never again.** In a run of whatever
operations from a session that was opened, with whatever sources installed on the way, no contract
is asked about once an answer was its interface, and from then on it has that interface; every
other answer ended its operation and left nothing behind; what is remembered is what was learnt;
and a query for events asks about the emitters of its candidates in the order of the receipt. -/
theorem asks_once {tx : Transaction} {receipt : Receipt} {encoded : Bytes} {settings : Settings}
    {library : Library} (hopened : Session.ofEncoded tx receipt encoded settings library = .ok s)
    (ops : List Operation) : s.AsksOnce ops := by
  obtain ⟨hnone, hsilent⟩ := lookups_of_ofEncoded hopened
  have hlearns := s.learns_performAll ops
  have hinterfaces := hlearns.interfaces_eq
  rw [hnone, List.append_nil] at hinterfaces
  have hknown : (s.performAll ops).known =
      (((s.allQuestions ops).filterMap Question.gain?).map (·.1)).reverse := by
    rw [known, hinterfaces, List.map_reverse]
  have hnodup : (s.performAll ops).known.Nodup := by
    rw [hknown, List.nodup_reverse]
    exact hlearns.nodup_entries
  obtain ⟨deeds, hj, -, hfetched, hcounts⟩ := hlearns.journal_eq
  have hasked : (s.performAll ops).journal.asked = (s.allQuestions ops).map (·.address) := by
    rw [hlearns.asked_eq, Journal.asked, Deed.filterMap_asked? hsilent, List.nil_append]
  exact {
    asked_eq := hasked
    once := hlearns.once
    gives := fun q hq i hi => by
      refine gives_of_lookup (lookup_of_mem hnodup ?_)
      rw [hinterfaces, List.mem_reverse]
      exact List.mem_filterMap.mpr ⟨q, hq, Question.gain?_of_learns hi⟩
    ends := fun step _ => (step.1.learns_perform step.2).2
    interfaces_eq := hinterfaces
    known_nodup := hnodup
    count_asked := fun a => by
      rw [hasked, count_address, hlearns.nodup_entries.count, hknown]
      simp only [List.mem_reverse]
    fetched_eq := by
      rw [hj, List.filterMap_append, Deed.filterMap_fetched? hsilent, List.nil_append, hfetched]
    counts := by
      rw [hj]
      refine (countsFrom_of_no_lookup hsilent).append ?_
      rw [Deed.filterMap_fetched? hsilent]
      rwa [known, hnone] at hcounts
    covers := fun step hstep l hl => by
      obtain ⟨⟨hfront, hall⟩, hfinds⟩ := covers_perform (s := step.1) hl
      rw [(moves_of_mem_steps hstep).record_eq] at hfront hall
      refine ⟨hfront, fun hend => ?_⟩
      obtain ⟨os, hos⟩ := hend.elim hfinds id
      exact hall os hos }

end Session

/-! ### A run with three lookups -/

/-- The address that a payment goes to. -/
def payee : Address := payment.destination.get rfl

/-- Three queries for functions: the first finds the source out of service, the second finds no
such function, and the third is put when another source has been installed. -/
def payLookups : List Operation :=
  [.setSource (.script [(payee, [.failure "no answer", .text payText])]),
    .functionArgument "refund" "amount", .functionArgument "refund" "amount",
    .setSource (.table [] none), .functionArgument "refund" "amount"]

/-- The payee is asked about twice, and known from then on. -/
theorem payOpened_asks_once :
    Session.ofEncoded payment { logs := [] } payRecord {} = .ok payOpened ∧
      (payOpened.performAll payLookups).journal.asked = [payee, payee] ∧
      (payOpened.performAll payLookups).known = [payee] ∧
      payOpened.AsksOnce payLookups :=
  ⟨ofEncoded_payRecord, by decide +kernel, by decide +kernel,
    Session.asks_once ofEncoded_payRecord payLookups⟩

end AbiSpan
