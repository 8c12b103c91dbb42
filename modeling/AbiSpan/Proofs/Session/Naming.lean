import AbiSpan.Proofs.Interface.Naming
import AbiSpan.Proofs.Session.CallPicks
import AbiSpan.Proofs.Session.Emitters
import AbiSpan.Proofs.Session.Found

/-!
The three ways to name an item agree.

A hash picks its logs before any interface is looked up and fails where an emitter declares no event
with that hash; a signature and a name go through all logs with topics and may come to an anonymous
event. Against fixed interfaces, though, a log decides which of them find it: a search by signature
passes over every log of another hash, and on the others the event declared with the hash is named
either way. A search by name does just what a search by signature does, log for log, where no other
event has the name, and so it ends in the same session.
-/

namespace AbiSpan

/-! ### One log -/

lemma Event.selector_eq_of_signature_eq {e E : Event} (h : e.signature = E.signature) :
    e.selector = E.selector := by
  simp only [selector, h]

namespace Interface

/-- The event can be told from all others of the interface by its hash and by its signature. It need
not be declared there itself. -/
structure Tells (i : Interface) (E : Event) : Prop where
  /-- No anonymous event has the signature. -/
  not_anonymous : ∀ e ∈ i.events, e.signature = E.signature → e.anonymous = false
  /-- No other signature has the hash. -/
  signature_eq : ∀ e ∈ i.events, e.selector = E.selector → e.signature = E.signature

variable {i : Interface} {l : Library} {E : Event} {key key' : ItemKey} {log : Log} {hash : Topic}

lemma mem_of_declared? {e : Event} (h : i.declared? hash = some e) :
    e ∈ i.events ∧ e.Declares hash := by
  obtain ⟨hdeclares, before, after, hevents, -⟩ := declared?_eq_some_iff.mp h
  exact ⟨by simp [hevents], hdeclares⟩

/-- Keys that name the same events of an interface find the same. -/
lemma occurrence?_congr (hhash : key.isHash = key'.isHash)
    (hnamed : ∀ e ∈ i.events, e.named key = e.named key') :
    i.occurrence? l key log hash = i.occurrence? l key' log hash := by
  have hanonymous : i.anonymous? l key log = i.anonymous? l key' log := by
    rw [anonymous?, anonymous?, List.filter_congr fun e he => by rw [hnamed e he]]
  unfold occurrence?
  rw [hhash, hanonymous]
  cases hdeclared : i.declared? hash with
  | none => rfl
  | some e => simp only [hnamed e (mem_of_declared? hdeclared).1]

/-- By its signature an event is not found in a log of another hash. -/
lemma Tells.occurrence?_of_ne (h : i.Tells E) (hne : hash ≠ E.selector) :
    i.occurrence? l (.signature E.signature) log hash = .ok none := by
  unfold occurrence?
  cases hdeclared : i.declared? hash with
  | some e =>
    obtain ⟨-, -, rfl⟩ := mem_of_declared? hdeclared
    have hnamed : e.named (.signature E.signature) = false := by
      refine beq_eq_false_iff_ne.mpr fun heq => hne ?_
      exact Event.selector_eq_of_signature_eq heq.symm
    simp [hnamed]
  | none =>
    have hanonymous : i.anonymous? l (.signature E.signature) log = none := by
      rw [anonymous?, List.filter_eq_nil_iff.mpr, List.findSome?_nil]
      intro e he
      rw [Bool.and_eq_true, not_and]
      intro hanonymous hnamed
      rw [h.not_anonymous e he (eq_of_beq hnamed).symm] at hanonymous
      cases hanonymous
    simp [ItemKey.isHash, hanonymous]

/-- What an event is found to be by its hash, it is by its signature. -/
lemma Tells.occurrence?_of_hash (h : i.Tells E) {found : Option (Event × LogValues)}
    (hfound : i.occurrence? l (.hash E.selector.bytes) log E.selector = .ok found) :
    i.occurrence? l (.signature E.signature) log E.selector = .ok found := by
  unfold occurrence? at hfound ⊢
  cases hdeclared : i.declared? E.selector with
  | none => simp [hdeclared, ItemKey.isHash] at hfound
  | some e =>
    obtain ⟨he, hdeclares, hselector⟩ := mem_of_declared? hdeclared
    have hhash : e.named (.hash E.selector.bytes) = true := by
      simp [Event.named, ItemKey.names, hdeclares, hselector]
    have hsignature : e.named (.signature E.signature) = true := by
      simp [Event.named, ItemKey.names, h.signature_eq e he hselector]
    simpa [hdeclared, hhash, hsignature] using hfound

/-- Where all events of a name have one signature, the name finds what the signature does. -/
lemma Plain.occurrence?_name (hi : i.Plain) (hE : IsPlain E.name E.inputs)
    (hnames : ∀ e ∈ i.events, e.name = E.name → e.signature = E.signature) :
    i.occurrence? l (.name E.name) log hash =
      i.occurrence? l (.signature E.signature) log hash := by
  refine occurrence?_congr rfl fun e he => Bool.eq_iff_iff.mpr ?_
  simp only [Event.named, ItemKey.names, beq_iff_eq]
  refine ⟨fun h => (hnames e he h.symm).symm, fun h => ?_⟩
  exact hE.name_eq_of_signatureText_eq (hi.events e he) h

end Interface

/-! ### Whole searches -/

/-- The logs that a hash leaves are some of those that are looked at under any other key. -/
lemma Receipt.candidates_hash (r : Receipt) (b : Bytes) {key : ItemKey}
    (hkey : key.isHash = false) :
    r.candidates (.hash b) = (r.candidates key).filter fun c => b == c.hash.bytes := by
  rw [candidates, candidates, List.filter_filterMap]
  refine List.filterMap_congr fun entry _ => ?_
  obtain ⟨log, index⟩ := entry
  cases hhead : log.topics.head? with
  | none => simp only [hhead, Option.filter_none]
  | some hash =>
    have hmark : ((ItemKey.hash b).isHash && !(ItemKey.hash b).names hash.bytes "" "") =
        !(b == hash.bytes) := rfl
    have hother : (key.isHash && !key.names hash.bytes "" "") = false := by
      rw [hkey, Bool.false_and]
    simp only [hhead, hmark, hother, Bool.false_eq_true, if_false, Option.filter_some]
    cases b == hash.bytes <;> rfl

namespace Session

/-- The search ends well with these occurrences, and is given these interfaces of emitters. -/
def Yields (s : Session) (abis : Address → Interface) (query : String) (choose : LogChoice)
    (os : List Occurrence) : Prop :=
  ∃ s', Ends (Query.search query choose) s os s' ∧ s'.Sees abis

end Session

/-- The occurrence that a candidate is by these interfaces. -/
def Candidate.reading? (l : Library) (abis : Address → Interface) (key : ItemKey) (c : Candidate) :
    Option Occurrence :=
  ((abis c.log.address).occurrence? l key c.log c.hash).toOption.join.map fun found =>
    { index := c.index, event := found.1, values := found.2 }

lemma Receipt.log_mem_of_mem_candidates {r : Receipt} {key : ItemKey} {c : Candidate}
    (h : c ∈ r.candidates key) : c.log ∈ r.logs :=
  List.mem_of_getElem? (log_of_mem_candidates h)

namespace Session

variable {s s' t : Session} {abis : Address → Interface} {query : String} {choose : LogChoice}
  {os os' : List Occurrence} {key : ItemKey} {E : Event}

/-- What a search ends well with is settled by the interfaces, and each of them settles its logs. -/
lemma Yields.found (h : s.Yields abis query choose os)
    (hkey : ItemKey.ofEventQuery query = .ok key) :
    os = ((s.record.receipt.candidates key).filterMap
      (Candidate.reading? s.record.library abis key)).filter (s.record.receipt.accepts choose) ∧
    ∀ c ∈ s.record.receipt.candidates key, ∃ found,
      (abis c.log.address).occurrence? s.record.library key c.log c.hash = .ok found := by
  obtain ⟨s', hends, hsees⟩ := h
  have hsearch : Always (Query.search query .every) s _ := Query.judges_search hkey
  rw [Ends, Query.outcome_search_choice] at hends
  rcases hout : outcome (Query.search query .every) s with ⟨fault | all, s1⟩
  · rw [hout] at hends
    cases hends
  · rw [hout] at hends
    cases hends
    rw [always_iff_of_outcome hout] at hsearch
    obtain ⟨hjudges, hsettles, rfl⟩ := hsearch
    have hremembered : ∀ c ∈ s.record.receipt.candidates key, ∃ found,
        s1.interfaces.lookup c.log.address = some (abis c.log.address) ∧
          (abis c.log.address).occurrence? s.record.library key c.log c.hash = .ok found := by
      intro c hc
      rw [← hjudges.record_eq]
      obtain ⟨-, i, found, hi, hfound⟩ := hsettles c hc
      have hlog : c.log ∈ s1.record.receipt.logs := by
        rw [hjudges.record_eq]
        exact Receipt.log_mem_of_mem_candidates hc
      cases hsees c.log hlog i hi
      exact ⟨found, hi, hfound⟩
    refine ⟨congrArg _ (List.filterMap_congr fun c hc => ?_), fun c hc => ?_⟩
    · obtain ⟨found, hi, -⟩ := hremembered c hc
      rw [reading?, hi, hjudges.record_eq]
      rfl
    · obtain ⟨found, -, hfound⟩ := hremembered c hc
      exact ⟨found, hfound⟩

/-- A search by hash and one by signature find the same. -/
lemma Yields.eq_of_hash (hs : s.Yields abis query choose os)
    (hhash : ItemKey.ofEventQuery query = .ok (.hash E.selector.bytes)) {text : String}
    (ht : t.Yields abis text choose os')
    (htext : ItemKey.ofEventQuery text = .ok (.signature E.signature))
    (hrecord : t.record = s.record)
    (htells : ∀ log ∈ s.record.receipt.logs, (abis log.address).Tells E) : os = os' := by
  obtain ⟨rfl, hsettled⟩ := hs.found hhash
  obtain ⟨rfl, -⟩ := ht.found htext
  rw [hrecord]
  have hother : (ItemKey.signature E.signature).isHash = false := rfl
  rw [Receipt.candidates_hash _ _ hother] at hsettled ⊢
  rw [List.filterMap_filter]
  refine congrArg _ (List.filterMap_congr fun c hc => ?_)
  have hlog := htells c.log (Receipt.log_mem_of_mem_candidates hc)
  by_cases hselector : c.hash = E.selector
  · have hsame : (E.selector.bytes == c.hash.bytes) = true := by rw [hselector, beq_self_eq_true]
    obtain ⟨found, hfound⟩ := hsettled c (List.mem_filter.mpr ⟨hc, hsame⟩)
    rw [if_pos hsame, Candidate.reading?, Candidate.reading?, hfound]
    rw [hselector] at hfound ⊢
    rw [hlog.occurrence?_of_hash hfound]
  · have hother : ¬ (E.selector.bytes == c.hash.bytes) = true := fun h =>
      hselector (Fixed.bytes_inj.mp (eq_of_beq h)).symm
    rw [if_neg hother, Candidate.reading?, hlog.occurrence?_of_ne hselector]
    rfl

end Session

namespace Query

open Session

variable {s : Session} {abis : Address → Interface} {key key' : ItemKey} {choose : LogChoice}
  {c : Candidate}

/-- Whatever interface a candidate is held against is remembered. -/
lemma remembers_examine (key : ItemKey) (choose : LogChoice) (c : Candidate) :
    Always (examine key choose c) s fun _ s' => s.LooksUp s' ∧
      ∀ i, (outcome (interfaceOf c.log.address) s).1 = .ok i →
        s'.interfaces.lookup c.log.address = some i := by
  simp only [examine, always_bind, always_record]
  refine (looksUp_interfaceOf c.log.address).with_outcome.mono fun r s1 hpost => ?_
  obtain ⟨hout, h1, hi⟩ := hpost
  rw [hout]
  cases r with
  | error fault => exact ⟨h1, fun _ h => by cases h⟩
  | ok i =>
    have hremembered : ∀ j, Except.ok i = Except.ok j →
        s1.interfaces.lookup c.log.address = some j := hi
    cases ho : i.occurrence? s1.record.library key c.log c.hash with
    | error fault =>
      simp only [ho, always_throw]
      exact ⟨h1, hremembered⟩
    | ok found =>
      cases found with
      | none =>
        simp only [ho, always_pure]
        exact ⟨h1, hremembered⟩
      | some found =>
        simp only [ho, always_bind, always_write, always_pure]
        exact ⟨h1.write rfl, hremembered⟩

lemma outcome_examine_congr (h : ∀ i, (outcome (interfaceOf c.log.address) s).1 = .ok i →
      i.occurrence? s.record.library key' c.log c.hash =
        i.occurrence? s.record.library key c.log c.hash) :
    outcome (examine key' choose c) s = outcome (examine key choose c) s := by
  have hlater := (looksUp_interfaceOf (s := s) c.log.address).1
  simp only [examine, outcome_bind]
  rcases hout : outcome (interfaceOf c.log.address) s with ⟨fault | i, s1⟩
  · rfl
  · rw [hout] at h hlater
    have hrecord : outcome record s1 = (.ok s.record, s1) := by rw [← hlater.record_eq]; rfl
    simp only [hrecord, h i rfl]

lemma outcome_examineAll_cons (key : ItemKey) (choose : LogChoice) (c : Candidate)
    (cs : List Candidate) (s : Session) : outcome (examineAll key choose (c :: cs)) s =
      match outcome (examine key choose c) s with
      | (.ok found, s1) => ((outcome (examineAll key choose cs) s1).1.map (found.toList ++ ·),
          (outcome (examineAll key choose cs) s1).2)
      | (.error fault, s1) => (.error fault, s1) := by
  rw [examineAll, outcome_bind]
  rcases outcome (examine key choose c) s with ⟨fault | found, s1⟩
  · rfl
  · simp only [← map_eq_pure_bind, outcome_map]

/-- Keys that agree on the interfaces that a search sees search alike. -/
lemma outcome_examineAll_congr {cs : List Candidate}
    (hlogs : ∀ c ∈ cs, c.log ∈ s.record.receipt.logs)
    (hsame : ∀ c ∈ cs, (abis c.log.address).occurrence? s.record.library key' c.log c.hash =
      (abis c.log.address).occurrence? s.record.library key c.log c.hash)
    (hsees : (outcome (examineAll key choose cs) s).2.Sees abis) :
    outcome (examineAll key' choose cs) s = outcome (examineAll key choose cs) s := by
  induction cs generalizing s with
  | nil => rfl
  | cons c cs ih =>
    obtain ⟨hc, hcs⟩ := List.forall_mem_cons.mp hlogs
    obtain ⟨hsame, hsames⟩ := List.forall_mem_cons.mp hsame
    have hexamine := remembers_examine (s := s) key choose c
    rcases h1 : outcome (examine key choose c) s with ⟨r, s1⟩
    rw [always_iff_of_outcome h1] at hexamine
    obtain ⟨hlater, hremembered⟩ := hexamine
    have hfirst (hsees : s1.Sees abis) : outcome (examine key' choose c) s = (r, s1) := by
      rw [outcome_examine_congr, h1]
      intro i hi
      rw [hsees c.log (by rwa [hlater.record_eq]) i (hremembered i hi), hsame]
    rw [outcome_examineAll_cons, h1] at hsees
    rw [outcome_examineAll_cons, outcome_examineAll_cons, h1]
    cases r with
    | error fault => rw [hfirst hsees]
    | ok found =>
      have hlater' := (always_examineAll (s := s1) key choose cs).1
      rw [hfirst (hsees.of_looksUp hlater')]
      simp only [ih (by rwa [hlater.record_eq]) (by rwa [hlater.record_eq]) hsees]

/-- A search by name does what one by signature does. -/
lemma outcome_search_name {E : Event} {text : String} (hE : IsPlain E.name E.inputs)
    (htext : ItemKey.ofEventQuery text = .ok (.signature E.signature))
    (hplain : ∀ log ∈ s.record.receipt.logs, (abis log.address).Plain)
    (hnames : ∀ log ∈ s.record.receipt.logs, ∀ e ∈ (abis log.address).events,
      e.name = E.name → e.signature = E.signature)
    (hsees : (outcome (search text choose) s).2.Sees abis) :
    outcome (search E.name choose) s = outcome (search text choose) s := by
  have hname : ItemKey.ofEventQuery E.name = .ok (.name E.name) :=
    ItemKey.ofString_of_isName hE.isName
  have hcandidates : s.record.receipt.candidates (.name E.name) =
    s.record.receipt.candidates (.signature E.signature) := rfl
  rw [outcome_search htext] at hsees
  rw [outcome_search hname, outcome_search htext, hcandidates]
  have hlogs : ∀ c ∈ s.record.receipt.candidates (.signature E.signature),
      c.log ∈ s.record.receipt.logs := fun c hc => Receipt.log_mem_of_mem_candidates hc
  refine outcome_examineAll_congr hlogs (fun c hc => ?_) hsees
  exact (hplain c.log (hlogs c hc)).occurrence?_name hE (hnames c.log (hlogs c hc))

/-! ### Calls -/

lemma calledFunction_eq (query : String) : calledFunction query = (do
    let (a, selector) ← MonadExcept.ofExcept (callTarget (← record).tx)
    let i ← interfaceOf a
    let f ← MonadExcept.ofExcept (i.called query a)
    if f.selector ≠ selector then
      throw (.selectorMismatch f.signature (Hex.text f.selector.bytes) (Hex.text selector.bytes))
    return f) := by
  rw [calledFunction]
  cases hkey : ItemKey.ofFunctionQuery query with
  | error fault => simp only [Interface.called, hkey, Except.bind]; rfl
  | ok key => simp only [Interface.called, hkey, Except.bind]; rfl

lemma ends_calledFunction_of_spaced {query text : String} {f : Function} {s' : Session}
    (h : Ends (calledFunction query) s f s') (hplain : ∀ i, s'.Recalls i → i.Plain)
    (hquery : f.IsAlias query) (htext : Text.Spaced f.signature.toList text.toList) :
    Ends (calledFunction text) s f s' := by
  rw [calledFunction_eq] at h ⊢
  simp only [ends_bind, ends_ofExcept, ends_ite, ends_pure, ends_throw] at h ⊢
  obtain ⟨r, s1, hrecord, ⟨a, selector⟩, s2, ⟨htarget, rfl⟩, i, s3, hlookup, g, s4, ⟨hcalled, rfl⟩,
    ⟨-, -, -, hfalse, -⟩ | ⟨hselector, rfl, rfl⟩⟩ := h
  · exact hfalse.elim
  refine ⟨r, s1, hrecord, (a, selector), s1, ⟨htarget, rfl⟩, i, s3, hlookup, g, s3, ⟨?_, rfl⟩,
    .inr ⟨hselector, rfl, rfl⟩⟩
  have hown : Ends record s s.record s := rfl
  obtain ⟨rfl, rfl⟩ := hown.unique hrecord
  obtain ⟨hlater, hi⟩ := (always_iff_of_outcome hlookup).mp (looksUp_interfaceOf a)
  have hrecalls : s3.Recalls i := by
    refine ⟨a, ?_, hi i rfl⟩
    rw [hlater.record_eq]
    exact (callTarget_eq_ok htarget).1
  rw [Interface.called_eq_ok_iff] at hcalled ⊢
  exact hcalled.of_spaced (hplain i hrecalls) hquery htext

end Query

/-! ### Agreement -/

/-- What a query for functions comes to, and how it depends on the way the function is named. -/
structure Interface.NamesAgree (i : Interface) (a : Address) : Prop where
  by_signature : ∀ f ∈ i.functions, ∀ query, f.IsAlias query → i.called query a = .ok f →
    ∀ text, Text.Spaced f.signature.toList text.toList → i.called text a = .ok f
  called_iff : ∀ query key, ItemKey.ofFunctionQuery query = .ok key → ∀ r,
    i.called query a = r ↔ i.Answers key query a r
  no_key : ∀ query fault, ItemKey.ofFunctionQuery query = .error fault →
    i.called query a = .error fault

/-- How searches for an event that are begun in these sessions agree. -/
structure Session.SearchesAgree (s t : Session) (abis : Address → Interface) (E : Event) :
    Prop where
  by_signature : ∀ query text choose os os', ItemKey.IsHashText E.selector.bytes query →
    Text.Spaced E.signature.toList text.toList → s.Yields abis query choose os →
    t.Yields abis text choose os' → os = os'
  by_name : (∀ log ∈ s.record.receipt.logs, ∀ e ∈ (abis log.address).events,
      e.name = E.name → e.signature = E.signature) →
    ∀ text choose, Text.Spaced E.signature.toList text.toList →
      (outcome (Query.search text choose) t).2.Sees abis →
      outcome (Query.search E.name choose) t = outcome (Query.search text choose) t

lemma Interface.Plain.namesAgree {i : Interface} (hi : i.Plain) (a : Address) : i.NamesAgree a where
  by_signature f _ query hquery h text htext :=
    called_eq_ok_iff.mpr ((called_eq_ok_iff.mp h).of_spaced hi hquery htext)
  called_iff query key hkey r := by
    rw [called, hkey]
    exact function_eq_iff
  no_key query fault hkey := by
    rw [called, hkey]
    rfl

/-- **The ways to name an item agree.** In a plain interface a function that is found by its name or
its selector is found by its signature too, whatever blanks are put into that, and a query comes to
the only function that its key names, or to how many there are instead; so a whole query for the
called function ends in the same session. Two searches for an event that both end well find the
same, one by its hash and one by its signature, where the interfaces they are given tell the event
from all others. A search by name does what the one by signature does where no other event has the
name. Over a local source every search from one session is given the same interfaces. -/
theorem Session.names_agree :
    (∀ (i : Interface) (a : Address), i.Plain → i.NamesAgree a) ∧
    (∀ (s s' : Session) (f : Function) (query text : String),
      Ends (Query.calledFunction query) s f s' → (∀ i, s'.Recalls i → i.Plain) →
      f.IsAlias query → Text.Spaced f.signature.toList text.toList →
      Ends (Query.calledFunction text) s f s') ∧
    (∀ (s t : Session) (abis : Address → Interface) (E : Event), t.record = s.record →
      IsPlain E.name E.inputs →
      (∀ log ∈ s.record.receipt.logs, (abis log.address).Plain ∧ (abis log.address).Tells E) →
      s.SearchesAgree t abis E) ∧
    (∀ (s : Session), (∀ source, s.source = some source → source.IsLocal) →
      ∀ query choose, (outcome (Query.search query choose) s).2.Sees s.interfaceFor) := by
  refine ⟨fun i a hi => hi.namesAgree a, fun s s' f query text h hplain hquery htext =>
      Query.ends_calledFunction_of_spaced h hplain hquery htext,
    fun s t abis E hrecord hE habis => ?_, fun s hs query choose => sees_search hs query choose⟩
  refine ⟨fun query text choose os os' hquery htext hos hos' => ?_,
    fun hnames text choose htext hsees => ?_⟩
  · refine hos.eq_of_hash ?_ hos' (hE.ofString_of_spaced htext) hrecord fun log hlog =>
      (habis log hlog).2
    exact ItemKey.ofString_of_isHashText hquery E.selector.length_bytes
  · rw [← hrecord] at habis hnames
    exact Query.outcome_search_name hE (hE.ofString_of_spaced htext)
      (fun log hlog => (habis log hlog).1) hnames hsees

/-! ### A session with one tip -/

/-- The event that tells of a tip. -/
def tip : Event where
  name := "Tip"
  inputs := [⟨"amount", "uint8", false, []⟩]
  anonymous := false

/-- The function that tips. -/
def tipping : Function where
  name := "tip"
  inputs := [⟨"amount", "uint8", false, []⟩]

def tips : Interface where
  events := [tip]
  functions := [tipping]

/-- The interface as a document. -/
def tipDoc : Json :=
  .array [
    .object [("type", .string "event"), ("name", .string "Tip"),
      ("inputs", .array [.object [("name", .string "amount"), ("type", .string "uint8"),
        ("indexed", .bool false)]]), ("anonymous", .bool false)],
    .object [("type", .string "function"), ("name", .string "tip"),
      ("inputs", .array [.object [("name", .string "amount"), ("type", .string "uint8")]]),
      ("outputs", .array [])]]

lemma interface?_tipDoc : Library.standard.interface? tipDoc.render = some tips := by
  have hwritable : Json.Writable .any tipDoc := by
    simp [tipDoc, Json.Writable, Json.WritableItems, Json.WritablePairs, Json.Shape.ofPlace,
      Json.Shape.ofKey]
  rw [Library.interface?_render hwritable]
  with_unfolding_all rfl

def tipLog : Log where
  address := ⟨Bytes.ofNat 20 3, rfl⟩
  topics := [⟨[61, 64, 92, 73, 50, 60, 76, 163, 109, 253, 102, 34, 201, 75, 198, 2, 202, 43, 203,
    62, 151, 40, 100, 96, 10, 249, 27, 199, 21, 43, 105, 39], rfl⟩]
  data := Bytes.ofNat 32 7

/-- A transaction that calls `tip(uint8)`, without an argument. -/
def tipped : Transaction where
  kind := .legacy
  destination := some tipLog.address
  input := [103, 184, 202, 114]

/-- Its record: fifteen words, of which three point to the call data, to the one log and to the
empty blooms. -/
def tipRecord : Bytes :=
  [0, 0, 0, 0, 0, 0, 0, 480, 0, 0, 0, 1, 0, 544, 832].flatMap (Bytes.ofNat 32) ++
    (Bytes.ofNat 32 4 ++ tipped.input ++ List.replicate 28 0) ++
    ([1, 32, 3, 96, 160, 1].flatMap (Bytes.ofNat 32) ++ tipLog.topics.flatMap Fixed.bytes ++
      Bytes.ofNat 32 32 ++ tipLog.data) ++ Bytes.ofNat 32 0

/-- The session that is opened over the record. -/
@[irreducible] def tipOpened : Session :=
  (Session.ofEncoded tipped { logs := [tipLog] } tipRecord {}).toOption.get (by decide +kernel)

/-- The session once it has a source. -/
def tipSourced : Session := tipOpened.performAll [.setSource (.table [] (some tipDoc.render))]

/-- The session once it has been asked for a function that there is not. -/
def tipSession : Session := tipSourced.performAll [.functionArgument "untip" "amount"]

lemma ofEncoded_tipRecord :
    Session.ofEncoded tipped { logs := [tipLog] } tipRecord {} = .ok tipOpened := by
  unfold tipOpened
  exact eq_ok_of_toOption (Option.some_get _).symm

/-- The selector that the transaction calls. -/
def tipSelector : Selector := ⟨tipped.input, rfl⟩

lemma tipOpened_parts : tipOpened.record.tx = tipped ∧
    tipOpened.record.receipt = { logs := [tipLog] } := by
  obtain ⟨htx, hreceipt, -⟩ := Session.record_of_ofEncoded ofEncoded_tipRecord
  exact ⟨htx, hreceipt⟩

lemma callTarget_tipped : Query.callTarget tipped = .ok (tipLog.address, tipSelector) := rfl

lemma selector_tipping : tipping.selector = tipSelector := by decide +kernel

lemma tipSession_eq : tipSession = tipSourced.taught tipLog.address tips := by
  have hnone : tips.functions.filter (fun f =>
      (ItemKey.name "untip").names f.selector.bytes f.signature f.name) = [] := rfl
  have hfault : tips.function (.name "untip") "untip" tipLog.address =
      .error (.functionNotFound "untip" tipLog.address.checksummed) := by
    rw [Interface.function, hnone]
  exact Session.performAll_eq_taught_of_ofEncoded "amount" ofEncoded_tipRecord callTarget_tipped
    interface?_tipDoc (ItemKey.ofString_of_isName (by decide)) hfault

lemma tipSession_record : tipSession.record = tipOpened.record := by
  rw [tipSession_eq]
  rfl

lemma tipSession_reachable : tipSession.Reachable :=
  ((Session.reachable_of_ofEncoded ofEncoded_tipRecord).performAll _).performAll _

/-- The digits of the event's hash, some letters in upper case. -/
def tipDigits : List Char :=
  "3D405C49323C4CA36DFD6622C94BC602ca2bcb3e972864600af91bc7152b6927".toList

/-- The queries by hash and by signature both find the log. -/
lemma tipSession_finds : tipDigits.map Char.toLower = Hex.encode tip.selector.bytes ∧
    ∀ query ∈ ["0x" ++ String.ofList tipDigits, " Tip( uint8)"],
      (outcome (Query.search query .every) tipSession).1.toOption.map (·.map (·.index)) =
        some [0] := by
  rw [tipSession_eq]
  decide +kernel

lemma tips_plain : tips.Plain where
  events e he := by
    obtain rfl := List.mem_singleton.mp he
    exact ⟨by decide, by decide⟩
  functions f hf := by
    obtain rfl := List.mem_singleton.mp hf
    exact ⟨by decide, by decide⟩

lemma tips_tells : tips.Tells tip where
  not_anonymous e he _ := by
    obtain rfl := List.mem_singleton.mp he
    rfl
  signature_eq e he _ := by
    obtain rfl := List.mem_singleton.mp he
    rfl

lemma tipSession_knows : tipSession.interfaces.lookup tipLog.address = some tips := by
  rw [tipSession_eq]
  exact List.lookup_cons_self

/-- The function is called by its name, and the interface that is then remembered is that of the
tips. -/
lemma tipSession_calls : ∃ s', Ends (Query.calledFunction "tip") tipSession tipping s' ∧
    ∀ i, s'.Recalls i → i = tips := by
  have hsource : tipSession.source.isSome = true := by
    rw [tipSession_eq]
    rfl
  have honly : tips.NamesOnly "tip" tipping :=
    ⟨.name "tip", ItemKey.ofString_of_isName (by decide), rfl⟩
  have hcalls : tipSession.Calls "tip" tipping := by
    refine Session.calls_of_known hsource ?_ tipSession_knows honly selector_tipping
    rw [tipSession_record, tipOpened_parts.1]
    exact callTarget_tipped
  obtain ⟨s', hends⟩ : ∃ s', Ends (Query.calledFunction "tip") tipSession tipping s' :=
    ⟨_, Prod.ext hcalls rfl⟩
  obtain ⟨hlater, -⟩ := (always_iff_of_outcome hends).mp (Query.always_calledFunction "tip")
  have hrecalls : tipSession.Recalls tips := by
    refine ⟨tipLog.address, ?_, tipSession_knows⟩
    rw [tipSession_record, tipOpened_parts.1]
    rfl
  exact ⟨s', hends, fun i hi =>
    hi.unique (hrecalls.mono hlater.record_eq hlater.interfaces)⟩

lemma tipSession_interfaceFor : ∀ log ∈ tipSession.record.receipt.logs,
    tipSession.interfaceFor log.address = tips := by
  intro log hlog
  rw [tipSession_record, tipOpened_parts.2] at hlog
  obtain rfl := List.mem_singleton.mp hlog
  simp [Session.interfaceFor, tipSession_knows]

lemma tipSession_isLocal : ∀ source, tipSession.source = some source → source.IsLocal := by
  rw [tipSession_eq]
  rintro _ ⟨⟩
  exact Source.isLocal_table _ _

/-- The tip is found alike by its hash, its signature and its name, and the function that tips is
called by its signature as by its name. -/
theorem tipSession_agrees : tipSession.Reachable ∧
    tips.Plain ∧ tips.Tells tip ∧
    tips.called "tip" tipLog.address = .ok tipping ∧
    tips.called " tip( uint8)" tipLog.address = .ok tipping ∧
    (∃ s', Ends (Query.calledFunction "tip") tipSession tipping s' ∧
      Ends (Query.calledFunction " tip( uint8)") tipSession tipping s') ∧
    (∃ os, os.map (·.index) = [0] ∧
      tipSession.Yields tipSession.interfaceFor ("0x" ++ String.ofList tipDigits) .every os ∧
      tipSession.Yields tipSession.interfaceFor " Tip( uint8)" .every os) ∧
    outcome (Query.search "Tip" .every) tipSession =
      outcome (Query.search " Tip( uint8)" .every) tipSession := by
  obtain ⟨hfunctions, hcalls, hevents, hlocal⟩ := Session.names_agree
  obtain ⟨hdigits, hfinds⟩ := tipSession_finds
  have hsees (query : String) := hlocal tipSession tipSession_isLocal query .every
  have hyields (query : String)
      (hquery : query ∈ ["0x" ++ String.ofList tipDigits, " Tip( uint8)"]) :
      ∃ os, os.map (·.index) = [0] ∧
        tipSession.Yields tipSession.interfaceFor query .every os := by
    obtain ⟨os, hos, hindices⟩ := Option.map_eq_some_iff.mp (hfinds query hquery)
    exact ⟨os, hindices, _, ends_of_toOption hos, hsees query⟩
  have htip : Text.Spaced tip.signature.toList " Tip( uint8)".toList :=
    Text.spaced_squeeze " Tip( uint8)".toList
  have htipping : Text.Spaced tipping.signature.toList " tip( uint8)".toList :=
    Text.spaced_squeeze " tip( uint8)".toList
  have hagree := hevents tipSession tipSession tipSession.interfaceFor tip rfl
    ⟨by decide, by decide⟩ fun log hlog => by
      rw [tipSession_interfaceFor log hlog]
      exact ⟨tips_plain, tips_tells⟩
  have hcalled : tips.called "tip" tipLog.address = .ok tipping := by
    rw [Interface.called_eq_ok_iff]
    exact ⟨.name "tip", ItemKey.ofString_of_isName (by decide), rfl⟩
  obtain ⟨s', hends, hrecalls⟩ := tipSession_calls
  obtain ⟨os, hindices, hhash⟩ := hyields ("0x" ++ String.ofList tipDigits) (by simp)
  obtain ⟨os', -, hsignature⟩ := hyields " Tip( uint8)" (by simp)
  have hmark : ItemKey.IsHashText tip.selector.bytes ("0x" ++ String.ofList tipDigits) :=
    ⟨tipDigits, by simp, hdigits⟩
  obtain rfl := hagree.by_signature _ _ _ os os' hmark htip hhash hsignature
  refine ⟨tipSession_reachable, tips_plain, tips_tells, hcalled, ?_, ⟨s', hends, ?_⟩,
    ⟨os, hindices, hhash, hsignature⟩, ?_⟩
  · exact (hfunctions tips tipLog.address tips_plain).by_signature tipping (by simp [tips]) "tip"
      (.inl rfl) hcalled _ htipping
  · refine hcalls tipSession s' tipping "tip" _ hends (fun i hi => ?_) (.inl rfl) htipping
    rw [hrecalls i hi]
    exact tips_plain
  · refine hagree.by_name (fun log hlog e he _ => ?_) _ .every htip (hsees _)
    rw [tipSession_interfaceFor log hlog] at he
    obtain rfl := List.mem_singleton.mp he
    rfl

end AbiSpan
