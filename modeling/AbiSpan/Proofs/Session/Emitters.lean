import AbiSpan.Proofs.Session.Asking

/-!
Which interfaces a search is given of the emitters.

A source may answer what it likes, so two searches may well be given different interfaces of one
contract. A source is local when its answer about a contract depends only on how often it has been
asked about that one; fixed tables are, and so are scripts. A search asks about a contract once at
most. From a local source it is therefore given what the session remembers or would be given of the
contract at once, whatever else it looks up before.
-/

namespace AbiSpan

namespace Source

/-- An answer about a contract depends only on how often the source was asked about it. -/
def IsLocal (source : Source) : Prop :=
  ∀ earlier earlier' a, earlier.count a = earlier'.count a →
    source.answer earlier a = source.answer earlier' a

lemma isLocal_table (texts : List (Address × String)) (fallback : Option String) :
    (table texts fallback).IsLocal := fun _ _ _ _ => rfl

lemma isLocal_script (responses : List (Address × List Response)) :
    (script responses).IsLocal := fun earlier earlier' a hcount => by
  simp only [script, hcount]

lemma getElem?_answers (source : Source) (l : Library) (earlier as : List Address) (n : ℕ) :
    (source.answers l earlier as)[n]? = as[n]?.map fun a =>
      l.question a (source.answer (earlier ++ as.take n) a) := by
  induction as generalizing earlier n with
  | nil => simp [answers]
  | cons a as ih =>
    cases n with
    | zero => simp [answers]
    | succ n => simp [answers, ih]

end Source

namespace Session

/-- The interfaces that the session remembers of emitters are these. -/
def Sees (s : Session) (abis : Address → Interface) : Prop :=
  ∀ log ∈ s.record.receipt.logs, ∀ i, s.interfaces.lookup log.address = some i →
    i = abis log.address

/-- The interface of a contract that the session remembers or, if it remembers none, would be given
at once. -/
def interfaceFor (s : Session) (a : Address) : Interface :=
  ((s.interfaces.lookup a).or ((s.answers [a]).head?.bind Question.learns?)).getD default

variable {s s' : Session} {abis : Address → Interface}

lemma Sees.of_looksUp (h : s'.Sees abis) (hs : s.LooksUp s') : s.Sees abis := fun log hlog i hi =>
  h log (hs.record_eq ▸ hlog) i (hs.interfaces.lookup _ i hi)

/-- A contract about which something is learnt has not been asked about before. -/
lemma Inquires.notMem_front {α : Type} {r : Except QueryFault α} {front back : List Question}
    {q : Question} (h : s.Inquires (front ++ q :: back) r s') :
    q.address ∉ front.map (·.address) := by
  intro hmem
  obtain ⟨q', hq', heq⟩ := List.mem_map.mp hmem
  cases hlearns : q'.learns? with
  | some i =>
    have honce := (List.pairwise_append.mp h.once).2.2 q' hq' q (by simp)
    exact honce (by rw [hlearns]; rfl) heq.symm
  | none =>
    -- what teaches nothing is the last question
    obtain ⟨before, after, rfl⟩ := List.append_of_mem hq'
    have hlast := (h.ends before q' (after ++ q :: back) (by simp) hlearns).1
    simp at hlast

/-- From a local source, what is learnt of a contract is what would be learnt of it at once. -/
lemma Inquires.answers_at_once {α : Type} {r : Except QueryFault α} {qs : List Question}
    {q : Question} (h : s.Inquires qs r s') (hs : ∀ source, s.source = some source → source.IsLocal)
    (hq : q ∈ qs) : s.answers [q.address] = [q] := by
  obtain ⟨front, back, rfl⟩ := List.append_of_mem hq
  have hanswers := h.answers_eq
  unfold answers at hanswers ⊢
  cases hsource : s.source with
  | none => simp [hsource] at hanswers
  | some source =>
    simp only [hsource] at hanswers
    have haddress : ((front ++ q :: back).map (·.address))[front.length]? = some q.address := by
      simp
    have hfront : ((front ++ q :: back).map (·.address)).take front.length =
        front.map (·.address) := by simp
    have hq : q = s.record.library.question q.address
        (source.answer (s.journal.asked ++ front.map (·.address)) q.address) := by
      have hat := congrArg (·[front.length]?) hanswers
      simp only [Source.getElem?_answers, haddress, hfront] at hat
      simpa using hat
    have hcount : (s.journal.asked ++ front.map (·.address)).count q.address =
        s.journal.asked.count q.address := by
      rw [List.count_append, List.count_eq_zero_of_not_mem h.notMem_front, Nat.add_zero]
    rw [hs source hsource _ _ _ hcount] at hq
    exact congrArg (fun q => [q]) hq.symm

/-- A search over a local source is given the interfaces that the session would be given. -/
lemma sees_search (hs : ∀ source, s.source = some source → source.IsLocal) (query : String)
    (choose : LogChoice) :
    (outcome (Query.search query choose) s).2.Sees s.interfaceFor := by
  intro log _ i hi
  have hlater := (Query.always_search (s := s) query choose).1
  obtain ⟨qs, hinquires, -⟩ := Query.inquires_search (s := s) query choose
  unfold interfaceFor
  cases hknown : s.interfaces.lookup log.address with
  | some j =>
    cases hi.symm.trans (hlater.interfaces.lookup _ j hknown)
    rfl
  | none =>
    have hmem := mem_of_lookup hi
    rw [hinquires.interfaces_eq, List.mem_append, List.mem_reverse] at hmem
    rcases hmem with hmem | hmem
    · obtain ⟨q, hq, hgain⟩ := List.mem_filterMap.mp hmem
      obtain ⟨j, hlearns, heq⟩ := Option.map_eq_some_iff.mp hgain
      obtain ⟨haddress, rfl⟩ := Prod.mk.inj heq
      rw [← haddress, hinquires.answers_at_once hs hq]
      simp [hlearns]
    · exact absurd (List.mem_map_of_mem hmem) (lookup_eq_none_iff.mp hknown)

end Session

end AbiSpan
