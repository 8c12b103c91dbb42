import AbiSpan.Proofs.Bytes
import AbiSpan.Proofs.Event.Inputs
import AbiSpan.Proofs.Selecting

/-!
What the ranges picked from a log select.

The node of a log may show the log: what its children select is the log's emitter, topics and
data. If it does, and the log is one of the event, then each pick selects the bytes of the log
that the part stands for, or fails where there are none. An argument in the data is held against
the walk over the data of the log alone, so two ways of counting positions have to agree: from
the start of the data, and from the start of the record.
-/

namespace AbiSpan

/-- The node of a log shows it: the children select the word of the emitter, the topics, as many
and in order, and the data. -/
structure Node.ShowsLog (encoded : Bytes) (log : Log) (n : Node) : Prop where
  emitter : ∃ c, n.child? 0 = some c ∧
    c.slice? encoded = some (List.replicate 12 0 ++ log.address.bytes)
  topics : ∃ c, n.child? 1 = some c ∧
    c.children.map (·.slice? encoded) = log.topics.map fun w => some w.bytes
  data : ∃ c, n.child? 2 = some c ∧ c.slice? encoded = some log.data

/-- Where the walk over the data of a log alone finds the inputs that are not indexed. -/
def Event.BodyTree (e : Event) (limits : Limits) (data : Bytes) (nodes : List Node) : Prop :=
  ∃ types, Param.rowTypes e.bodyInputs = .ok types ∧
    (Layout.locate { bytes := data, limits } types).1 = .ok nodes

lemma Event.BodyTree.unique {e : Event} {limits : Limits} {data : Bytes} {nodes nodes' : List Node}
    (h : e.BodyTree limits data nodes) (h' : e.BodyTree limits data nodes') : nodes = nodes' :=
  Param.RowTree.unique h h'

/-- The outcome is a range, and the range selects the bytes. -/
def Selects (encoded : Bytes) (outcome : Except QueryFault Span) (s : Bytes) : Prop :=
  ∃ span, outcome = .ok span ∧ span.slice? encoded = some s

namespace LogScope

variable {s : LogScope} {log : Log} {name : String} {before : List Param} {p : Param}
  {outcome : Except QueryFault Span} {state : PickState Located}

/-- What picking the input at a place of the body comes to. -/
structure PicksBody (s : LogScope) (log : Log) (i : Nat) (outcome : Except QueryFault Span) :
    Prop where
  /-- It succeeds just where the data is walked through and the input has a size. -/
  ok_iff : (∃ span, outcome = .ok span) ↔ ∃ nodes m, s.event.BodyTree s.limits log.data nodes ∧
    nodes[i]? = some m ∧ m.size.isSome = true
  /-- Then it selects the bytes that the input has in the data. -/
  selects : ∀ span nodes m, outcome = .ok span → s.event.BodyTree s.limits log.data nodes →
    nodes[i]? = some m → ∃ b, m.slice? log.data = some b ∧ span.slice? s.encoded = some b
  /-- The range lies inside that of the data. -/
  inside : ∀ span, outcome = .ok span → ∃ c, s.node.child? 2 = some c ∧ c.offset ≤ span.offset ∧
    span.offset + span.size ≤ c.offset + log.data.length

/-- What picking a part of a log comes to. -/
def PicksRight (s : LogScope) (log : Log) : LogPart → Except QueryFault Span → Prop
  | .address, outcome =>
    Selects s.encoded outcome (List.replicate 12 0 ++ log.address.bytes)
  | .signature, outcome =>
    (s.event.anonymous = true → ∃ fault, outcome = .error fault) ∧
      (s.event.anonymous = false → log.topics.head? = some s.event.selector ∧
        Selects s.encoded outcome s.event.selector.bytes)
  | .argument name, outcome =>
    ((∀ p ∈ s.event.inputs, p.name ≠ name) → ∃ fault, outcome = .error fault) ∧
      ∀ before p, s.event.FirstInput name before p →
        (p.indexed = true → ∃ w,
          log.topics[s.event.leadingTopics + before.countP (·.indexed)]? = some w ∧
            Selects s.encoded outcome w.bytes) ∧
        (p.indexed = false → s.PicksBody log (before.countP fun q => !q.indexed) outcome)

/-! ### Parts with a node of their own -/

lemma selects_span {encoded b : Bytes} {n : Node} (h : n.slice? encoded = some b) :
    Selects encoded n.span b := by
  obtain ⟨size, hsize, hslice⟩ := Node.slice?_eq_some_iff.mp h
  exact ⟨⟨n.offset, size⟩, by simp [Node.span, hsize], hslice⟩

lemma selects_emitter (h : s.node.ShowsLog s.encoded log) :
    Selects s.encoded (s.emitter >>= Node.span) (List.replicate 12 0 ++ log.address.bytes) := by
  obtain ⟨c, hc, hslice⟩ := h.emitter
  have hemitter : s.emitter = .ok c := by simp [emitter, part, hc]
  rw [hemitter]
  exact selects_span hslice

lemma selects_topic (h : s.node.ShowsLog s.encoded log) {i : ℕ} {w : Topic}
    (hw : log.topics[i]? = some w) : Selects s.encoded (s.topic i >>= Node.span) w.bytes := by
  obtain ⟨c, hc, hslices⟩ := h.topics
  have hi := congrArg (·[i]?) hslices
  simp only [List.getElem?_map, hw, Option.map_some] at hi
  obtain ⟨m, hm, hslice⟩ := Option.map_eq_some_iff.mp hi
  have hparts : s.part 1 "log topics" = .ok c := by simp [part, hc]
  have htopic : s.topic i = .ok m := by simp [topic, hparts, Node.child?, hm, bind, Except.bind]
  rw [htopic]
  exact selects_span hslice

/-! ### Parts of the data -/

/-- What has been located is the body of the data. -/
def Remembers (s : LogScope) (data : Bytes) (state : PickState Located) : Prop :=
  ∀ nodes, state.located = some nodes → s.event.BodyTree s.limits data nodes

lemma always_dataTree {data : Bytes} {c : Node} (hc : c.slice? s.encoded = some data)
    (hstate : s.Remembers data state) :
    Always (s.dataTree c) state fun r state' => s.Remembers data state' ∧
      ∀ nodes, r = .ok nodes ↔ s.event.BodyTree s.limits data nodes := by
  simp only [dataTree, always_bind, always_get]
  cases hl : state.located with
  | some nodes =>
    have hnodes := hstate nodes hl
    refine ⟨hstate, fun nodes' => ⟨?_, fun h => ?_⟩⟩
    · rintro ⟨⟩
      exact hnodes
    · rw [hnodes.unique h]
      rfl
  | none =>
    simp only [hc, always_bind, always_ofExcept]
    cases ht : Param.rowTypes s.event.bodyInputs with
    | error fault =>
      refine ⟨hstate, fun nodes => ⟨fun h => (by cases h), ?_⟩⟩
      intro h
      rcases h with ⟨types, htypes, -⟩
      rw [ht] at htypes
      cases htypes
    | ok types =>
      simp only [Picking.always_locate]
      cases hloc : (Layout.locate { bytes := data, limits := s.limits } types).1 with
      | error fault =>
        refine ⟨fun nodes h => ?_, fun nodes => ⟨fun h => (by cases h), ?_⟩⟩
        · exact hstate nodes h
        · intro h
          rcases h with ⟨types', htypes', hok⟩
          rw [ht] at htypes'
          cases htypes'
          rw [hloc] at hok
          cases hok
      | ok nodes =>
        have hbody : s.event.BodyTree s.limits data nodes := ⟨types, ht, hloc⟩
        refine ⟨?_, fun nodes' => ⟨?_, fun h => ?_⟩⟩
        · rintro _ ⟨⟩
          exact hbody
        · rintro ⟨⟩
          exact hbody
        · rw [hbody.unique h]
          rfl

lemma picksBody_error {i : ℕ} {fault : QueryFault}
    (h : ¬ ∃ nodes m, s.event.BodyTree s.limits log.data nodes ∧ nodes[i]? = some m ∧
      m.size.isSome = true) : s.PicksBody log i (.error fault) where
  ok_iff := by
    refine ⟨fun hok => ?_, fun hok => absurd hok h⟩
    obtain ⟨_, hok⟩ := hok
    cases hok
  selects _ _ _ hok := by cases hok
  inside _ hok := by cases hok

/-- The range of a node of the body, moved to where the data is in the record. -/
lemma picksBody_shift {c m : Node} {i size : ℕ} {nodes : List Node}
    (hc : s.node.child? 2 = some c) (hslice : c.slice? s.encoded = some log.data)
    (hbody : s.event.BodyTree s.limits log.data nodes) (hm : nodes[i]? = some m)
    (hsize : m.size = some size) :
    s.PicksBody log i (.ok (Span.shift ⟨m.offset, size⟩ c.offset)) := by
  obtain ⟨hle, hms⟩ := Param.RowTree.slice? hbody hm hsize
  obtain ⟨total, -, htotal⟩ := Node.slice?_eq_some_iff.mp hslice
  refine ⟨⟨fun _ => ⟨nodes, m, hbody, hm, by simp [hsize]⟩, fun _ => ⟨_, rfl⟩⟩, ?_, ?_⟩
  · rintro _ nodes' m' ⟨⟩ hbody' hm'
    obtain rfl := hbody.unique hbody'
    rw [hm] at hm'
    cases hm'
    refine ⟨_, hms.trans (if_pos hle), ?_⟩
    rw [Span.slice?, Span.shift, ← Bytes.slice?_slice? htotal hle]
    exact if_pos hle
  · rintro _ ⟨⟩
    exact ⟨c, hc, Nat.le_add_right _ _, by simp only [Span.shift]; omega⟩

lemma always_dataArgument (h : s.node.ShowsLog s.encoded log) (hstate : s.Remembers log.data state)
    (i : ℕ) : Always (s.dataArgument i) state fun r state' =>
      s.Remembers log.data state' ∧ s.PicksBody log i r := by
  obtain ⟨c, hc, hslice⟩ := h.data
  have hdata : s.data = .ok c := by simp [data, part, hc]
  simp only [dataArgument, hdata, always_bind, always_ofExcept]
  refine (always_dataTree hslice hstate).mono fun r state' hpost => ?_
  obtain ⟨hstate', hr⟩ := hpost
  cases r with
  | error fault =>
    refine ⟨hstate', picksBody_error ?_⟩
    intro h
    rcases h with ⟨nodes, -, hbody, -⟩
    cases (hr nodes).mpr hbody
  | ok nodes =>
    have hbody := (hr nodes).mp rfl
    have hat : ∀ nodes' m', s.event.BodyTree s.limits log.data nodes' → nodes'[i]? = some m' →
        nodes[i]? = some m' := fun nodes' m' hbody' hm' => hbody.unique hbody' ▸ hm'
    cases hm : nodes[i]? with
    | none =>
      simp only [hm, always_throw]
      refine ⟨hstate', picksBody_error ?_⟩
      intro h
      rcases h with ⟨nodes', m', hbody', hm', -⟩
      cases hm.symm.trans (hat nodes' m' hbody' hm')
    | some m =>
      simp only [hm, always_bind, always_ofExcept, always_pure]
      cases hsize : m.size with
      | none =>
        simp only [Node.span, hsize]
        refine ⟨hstate', picksBody_error ?_⟩
        intro h
        rcases h with ⟨nodes', m', hbody', hm', hsize'⟩
        cases hm.symm.trans (hat nodes' m' hbody' hm')
        simp [hsize] at hsize'
      | some size =>
        simp only [Node.span, hsize]
        exact ⟨hstate', picksBody_shift hc hslice hbody hm hsize⟩

/-! ### Every part -/

lemma exists_topic (he : s.event.Emits log) (hfirst : s.event.FirstInput name before p)
    (hp : p.indexed = true) :
    ∃ w, log.topics[s.event.leadingTopics + before.countP (·.indexed)]? = some w := by
  have hlt := hfirst.countP_lt hp
  have htopics := he.topics
  exact ⟨_, List.getElem?_eq_getElem (by omega)⟩

lemma always_argument (h : s.node.ShowsLog s.encoded log) (he : s.event.Emits log)
    (hstate : s.Remembers log.data state) (name : String) :
    Always (s.argument name) state fun r state' =>
      s.Remembers log.data state' ∧ s.PicksRight log (.argument name) r := by
  unfold argument
  cases hplace : s.event.place? name with
  | none =>
    refine ⟨hstate, fun _ => ⟨_, rfl⟩, fun before p hfirst => ?_⟩
    rw [hfirst.place?] at hplace
    cases hplace
  | some place =>
    have hnamed : ¬ ∀ p ∈ s.event.inputs, p.name ≠ name := fun hne => by
      rw [Event.place?_eq_none hne] at hplace
      cases hplace
    have hplaced : ∀ before p, s.event.FirstInput name before p →
        (if p.indexed then .topic (s.event.leadingTopics + before.countP (·.indexed))
          else .data (before.countP fun q => !q.indexed)) = place := fun before p hfirst =>
      Option.some.inj (hfirst.place?.symm.trans hplace)
    cases place with
    | topic i =>
      simp only [always_ofExcept]
      refine ⟨hstate, fun hne => absurd hne hnamed, fun before p hfirst => ?_⟩
      have hi := hplaced before p hfirst
      cases hp : p.indexed with
      | false => simp [hp] at hi
      | true =>
        simp only [hp, if_true, EventPlace.topic.injEq] at hi
        subst hi
        obtain ⟨w, hw⟩ := exists_topic he hfirst hp
        exact ⟨fun _ => ⟨w, hw, selects_topic h hw⟩, fun hp' => by cases hp'⟩
    | data i =>
      refine (always_dataArgument h hstate i).mono fun r state' hpost => ?_
      obtain ⟨hstate', hr⟩ := hpost
      refine ⟨hstate', fun hne => absurd hne hnamed, fun before p hfirst => ?_⟩
      have hi := hplaced before p hfirst
      cases hp : p.indexed with
      | true => simp [hp] at hi
      | false =>
        simp only [hp, Bool.false_eq_true, if_false, EventPlace.data.injEq] at hi
        subst hi
        exact ⟨fun hp' => (by cases hp'), fun _ => hr⟩

lemma always_range (h : s.node.ShowsLog s.encoded log) (he : s.event.Emits log) (part : LogPart)
    (hstate : s.Remembers log.data state) : Always (s.range part) state fun r state' =>
      s.Remembers log.data state' ∧ s.PicksRight log part r := by
  cases part with
  | address =>
    simp only [range, always_ofExcept]
    exact ⟨hstate, selects_emitter h⟩
  | signature =>
    cases ha : s.event.anonymous with
    | true =>
      simp only [range, ha, if_true, always_throw]
      exact ⟨hstate, fun _ => ⟨_, rfl⟩, fun ha' => (by rw [ha] at ha'; cases ha')⟩
    | false =>
      simp only [range, ha, Bool.false_eq_true, if_false, always_ofExcept]
      have hhead := he.hash ha
      have htopic : log.topics[0]? = some s.event.selector := by
        rwa [← List.head?_eq_getElem?]
      exact ⟨hstate, fun ha' => (by rw [ha] at ha'; cases ha'),
        fun _ => ⟨hhead, selects_topic h htopic⟩⟩
  | argument name =>
    simp only [range, always_bind]
    refine (always_argument h he hstate name).mono fun r state' hpost => ?_
    obtain ⟨hstate', hr⟩ := hpost
    cases r with
    | error fault => exact ⟨hstate', hr⟩
    | ok span =>
      simp only [Picking.always_notify, always_pure]
      exact ⟨hstate', hr⟩

/-- Each pick comes to what it should, and the memory of the scope stays true. -/
lemma always_pick (h : s.node.ShowsLog s.encoded log) (he : s.event.Emits log) (part : LogPart)
    (hstate : s.Remembers log.data state) : Always (s.pick part) state fun r state' =>
      s.Remembers log.data state' ∧ s.PicksRight log part r :=
  Picking.always_bind_select ((always_range h he part hstate).mono fun _ _ hpost _ => hpost)

end LogScope

end AbiSpan
