import AbiSpan.Proofs.Session.CallPicks

/-!
Every range that a session gathers lies in its record.

What the record shows need not agree with the receipt or with the input of the transaction. But
its tree was found by walking over it, so each node lies in it; and a tree found in the data of a
log or in call data lies in those bytes, which lie in the record in turn. Call trees that the
session has kept were found in the same bytes, for whichever function.
-/

namespace AbiSpan

namespace Span

variable {s : Span} {encoded : Bytes}

lemma fits_mk {offset size : ℕ} : Fits ⟨offset, size⟩ encoded ↔ offset + size ≤ encoded.length :=
  Iff.rfl

/-- The range lies in the buffer, and no sum on the way to its end passes the largest offset. -/
structure Sound (s : Span) (encoded : Bytes) : Prop where
  fits : s.Fits encoded
  le_maxOffset : s.offset + s.size ≤ maxOffset

/-- The range is one of the bytes of `outer`, moved to where those are in the buffer. -/
structure LiesIn (s : Span) (encoded : Bytes) (outer : Span) : Prop where
  outer_sound : outer.Sound encoded
  moved : ∃ inner : Span, inner.offset + inner.size ≤ outer.size ∧ s = inner.shift outer.offset

lemma Fits.sound (h : s.Fits encoded) (hsize : encoded.length < offsetBound) : s.Sound encoded := by
  refine ⟨h, ?_⟩
  unfold Fits at h
  unfold maxOffset
  omega

lemma LiesIn.sound {outer : Span} (h : s.LiesIn encoded outer) : s.Sound encoded := by
  obtain ⟨⟨hfits, hmax⟩, inner, hinner, rfl⟩ := h
  unfold Fits at hfits
  refine ⟨?_, ?_⟩ <;> simp only [Fits, shift] <;> omega

end Span

namespace Node

variable {n c : Node} {b : Bytes} {i : ℕ}

/-- The node and all below it, as far as they have a size, lie in the buffer. -/
def Stands (b : Bytes) (n : Node) : Prop :=
  ∀ m ∈ n.preorder, ∀ span, m.span? = some span → span.Fits b

lemma Stands.fits (h : n.Stands b) {span : Span} (hspan : n.span? = some span) : span.Fits b :=
  h n (by rw [preorder_eq]; exact List.mem_cons_self) span hspan

lemma Stands.child (h : n.Stands b) (hc : n.child? i = some c) : c.Stands b := by
  intro m hm
  refine h m ?_
  rw [preorder_eq]
  exact List.mem_cons_of_mem _ (mem_preorderOf.mpr ⟨c, List.mem_of_getElem? hc, hm⟩)

lemma span_eq_ok {span : Span} (h : n.span = .ok span) : n.span? = some span := by
  unfold Node.span at h
  unfold span?
  cases hsize : n.size with
  | none => simp [hsize] at h
  | some size => simpa [hsize] using h

lemma Faithful.stands {t : AbiType} (h : Faithful b t n) : n.Stands b := by
  intro m hm span hspan
  obtain ⟨u, hu⟩ := h.exists_honest m hm
  obtain ⟨size, hsize, rfl⟩ := Option.map_eq_some_iff.mp hspan
  exact (hu.sized size hsize).2.1

end Node

/-- Whatever `locate` finds lies in the buffer. -/
lemma Layout.locate_stands {b : Buffer} {ts : List AbiType} {ns : List Node}
    (h : (locate b ts).1 = .ok ns) : ∀ n ∈ ns, n.Stands b.bytes := by
  obtain ⟨hr, -⟩ := locate_fst_eq_ok_iff.mp h
  intro n hn
  obtain ⟨t, -, hfaithful⟩ := exists_left_of_mem (hr.faithful (Nat.zero_le _)) hn
  exact hfaithful.stands

/-- A node that stands in the buffer has a range that lies in it. -/
lemma sound_of_bind_span {encoded : Bytes} {x : Except QueryFault Node} {span : Span}
    (hsize : encoded.length < offsetBound) (hx : ∀ n, x = .ok n → n.Stands encoded)
    (h : (x >>= Node.span) = .ok span) : span.Sound encoded := by
  cases x with
  | error fault => cases h
  | ok n => exact ((hx n rfl).fits (Node.span_eq_ok h)).sound hsize

/-! ### Parts of a log -/

namespace LogScope

variable {s : LogScope} {state : PickState Located}

/-- A range that is picked from a log lies in the record, and that of an argument in the data lies
in the data of the log. -/
structure Within (s : LogScope) (part : LogPart) (span : Span) : Prop where
  sound : span.Sound s.encoded
  data : ∀ name i, part = .argument name → s.event.place? name = some (.data i) →
    ∃ c outer, s.node.child? 2 = some c ∧ c.span? = some outer ∧ span.LiesIn s.encoded outer

/-- What has been located was found in the data of the log. -/
def Found (s : LogScope) (state : PickState Located) : Prop :=
  ∀ nodes, state.located = some nodes → ∃ c data, s.node.child? 2 = some c ∧
    c.slice? s.encoded = some data ∧ s.event.BodyTree s.limits data nodes

lemma part_stands (hn : s.node.Stands s.encoded) {i : ℕ} {name : String} {c : Node}
    (h : s.part i name = .ok c) : c.Stands s.encoded := by
  unfold part at h
  cases hc : s.node.child? i with
  | none => simp [hc] at h
  | some c' =>
    simp only [hc, Except.ok.injEq] at h
    exact h ▸ hn.child hc

lemma topic_stands (hn : s.node.Stands s.encoded) {i : ℕ} {c : Node}
    (h : s.topic i = .ok c) : c.Stands s.encoded := by
  unfold topic at h
  cases htopics : s.part 1 "log topics" with
  | error fault => simp [htopics, bind, Except.bind] at h
  | ok topics =>
    cases hc : topics.child? i with
    | none => simp [htopics, hc, bind, Except.bind] at h
    | some c' =>
      simp only [htopics, hc, bind, Except.bind, Except.ok.injEq] at h
      exact h ▸ (part_stands hn htopics).child hc

/-- A node of the body, moved to where the data is, lies in the data. -/
lemma liesIn_of_body (hsize : s.encoded.length < offsetBound) {c m : Node} {data : Bytes}
    {nodes : List Node} {i : ℕ} {span : Span} (hslice : c.slice? s.encoded = some data)
    (hbody : s.event.BodyTree s.limits data nodes) (hm : nodes[i]? = some m)
    (hspan : m.span = .ok span) :
    ∃ outer, c.span? = some outer ∧ (span.shift c.offset).LiesIn s.encoded outer := by
  obtain ⟨size, hcsize, hdata⟩ := Node.slice?_eq_some_iff.mp hslice
  obtain ⟨msize, hmsize, rfl⟩ := Option.map_eq_some_iff.mp (Node.span_eq_ok hspan)
  obtain ⟨hfit, -⟩ := Param.RowTree.slice? hbody hm hmsize
  rw [Bytes.length_of_slice? hdata] at hfit
  have houter : Span.Fits ⟨c.offset, size⟩ s.encoded := (Bytes.slice?_eq_some_iff.mp hdata).1
  exact ⟨⟨c.offset, size⟩, by rw [Node.span?, hcsize, Option.map_some], houter.sound hsize,
    _, hfit, rfl⟩

lemma always_dataArgument_within (hsize : s.encoded.length < offsetBound) (hstate : s.Found state)
    (i : ℕ) : Always (s.dataArgument i) state fun r state' => s.Found state' ∧
      ∀ span, r = .ok span → ∃ c outer, s.node.child? 2 = some c ∧ c.span? = some outer ∧
        span.LiesIn s.encoded outer := by
  simp only [dataArgument, always_bind, always_ofExcept]
  cases hc : s.node.child? 2 with
  | none =>
    simp only [data, part, hc]
    exact ⟨hstate, fun _ h => by cases h⟩
  | some c =>
    simp only [data, part, hc]
    cases hslice : c.slice? s.encoded with
    | none =>
      -- Data that the record does not hold was never walked over, so nothing is remembered of it.
      have hnone : state.located = none := by
        cases hl : state.located with
        | none => rfl
        | some nodes =>
          obtain ⟨c', data, hc', hdata, -⟩ := hstate nodes hl
          rw [hc] at hc'
          cases hc'
          rw [hslice] at hdata
          cases hdata
      simp only [dataTree, always_bind, always_get, hnone, hslice, always_throw]
      exact ⟨hstate, fun _ h => by cases h⟩
    | some data =>
      have hremembers : s.Remembers data state := fun nodes hl => by
        obtain ⟨c', data', hc', hdata, hbody⟩ := hstate nodes hl
        rw [hc] at hc'
        cases hc'
        rw [hslice] at hdata
        cases hdata
        exact hbody
      refine (always_dataTree hslice hremembers).mono fun r state' hpost => ?_
      obtain ⟨hremembers', hnodes⟩ := hpost
      have hstate' : s.Found state' := fun nodes hl =>
        ⟨c, data, hc, hslice, hremembers' nodes hl⟩
      cases r with
      | error fault => exact ⟨hstate', fun _ h => by cases h⟩
      | ok nodes =>
        cases hm : nodes[i]? with
        | none =>
          simp only [hm, always_throw]
          exact ⟨hstate', fun _ h => by cases h⟩
        | some m =>
          simp only [hm, always_bind, always_ofExcept, always_pure]
          cases hspan : m.span with
          | error fault => exact ⟨hstate', fun _ h => by cases h⟩
          | ok span =>
            refine ⟨hstate', ?_⟩
            rintro _ ⟨⟩
            obtain ⟨outer, houter, hlies⟩ :=
              liesIn_of_body hsize hslice ((hnodes nodes).mp rfl) hm hspan
            exact ⟨c, outer, rfl, houter, hlies⟩

lemma always_argument_within (hsize : s.encoded.length < offsetBound)
    (hn : s.node.Stands s.encoded) (hstate : s.Found state) (name : String) :
    Always (s.argument name) state fun r state' => s.Found state' ∧
      ∀ span, r = .ok span → s.Within (.argument name) span := by
  unfold argument
  cases hplace : s.event.place? name with
  | none => exact ⟨hstate, fun _ h => by cases h⟩
  | some place =>
    cases place with
    | topic i =>
      simp only [always_ofExcept]
      refine ⟨hstate, fun span h => ?_⟩
      refine ⟨sound_of_bind_span hsize (fun _ => topic_stands hn) h,
        fun name' i' hname hplace' => ?_⟩
      cases hname
      rw [hplace] at hplace'
      cases hplace'
    | data i =>
      refine (always_dataArgument_within hsize hstate i).mono fun r state' hpost => ?_
      obtain ⟨hstate', hr⟩ := hpost
      refine ⟨hstate', fun span h => ?_⟩
      obtain ⟨c, outer, hc, houter, hlies⟩ := hr span h
      exact ⟨hlies.sound, fun _ _ _ _ => ⟨c, outer, hc, houter, hlies⟩⟩

lemma always_range_within (hsize : s.encoded.length < offsetBound) (hn : s.node.Stands s.encoded)
    (part : LogPart) (hstate : s.Found state) : Always (s.range part) state fun r state' =>
      s.Found state' ∧ ∀ span, r = .ok span → s.Within part span := by
  cases part with
  | address =>
    simp only [range, always_ofExcept]
    refine ⟨hstate, fun span h => ⟨sound_of_bind_span hsize (fun _ => part_stands hn) h, ?_⟩⟩
    intro _ _ hname
    cases hname
  | signature =>
    cases ha : s.event.anonymous with
    | true =>
      simp only [range, ha, if_true, always_throw]
      exact ⟨hstate, fun _ h => by cases h⟩
    | false =>
      simp only [range, ha, Bool.false_eq_true, if_false, always_ofExcept]
      refine ⟨hstate, fun span h => ⟨sound_of_bind_span hsize (fun _ => topic_stands hn) h, ?_⟩⟩
      intro _ _ hname
      cases hname
  | argument name =>
    simp only [range, always_bind]
    refine (always_argument_within hsize hn hstate name).mono fun r state' hpost => ?_
    obtain ⟨hstate', hr⟩ := hpost
    cases r with
    | error fault => exact ⟨hstate', hr⟩
    | ok span =>
      simp only [Picking.always_notify, always_pure]
      exact ⟨hstate', hr⟩

/-- Each pick from a log gives a range that lies where it should, whatever the log is. -/
lemma always_pick_within (hsize : s.encoded.length < offsetBound) (hn : s.node.Stands s.encoded)
    (part : LogPart) (hstate : s.Found state) : Always (s.pick part) state fun r state' =>
      s.Found state' ∧ ∀ span, r = .ok span → s.Within part span :=
  Picking.always_bind_select ((always_range_within hsize hn part hstate).mono fun _ _ hpost _ =>
    hpost)

end LogScope

/-! ### Parts of a call -/

namespace CallScope

variable {s : CallScope} {kept kept' : Located}

/-- A range that is picked from a call lies in the record: that of the selector at the front of the
call data, and that of an argument in the bytes behind the selector. -/
structure Within (s : CallScope) (part : CallPart) (span : Span) : Prop where
  sound : span.Sound s.encoded
  signature : part = .signature → span = ⟨s.node.offset, selectorSize⟩
  argument : ∀ name, part = .argument name → ∃ size, s.node.size = some size ∧
    selectorSize ≤ size ∧
    span.LiesIn s.encoded ⟨s.node.offset + selectorSize, size - selectorSize⟩

/-- What is kept for the function was found in the bytes behind the selector, for some inputs. -/
def Found (s : CallScope) (kept : Located) : Prop :=
  ∀ nodes, kept.lookup s.function.selector = some nodes → ∃ data inputs,
    s.payload = .ok data ∧ Param.RowTree inputs s.limits data nodes

lemma Found.fills (h : s.Found kept) (hfills : s.Fills kept kept') : s.Found kept' := by
  rcases hfills with rfl | ⟨nodes, -, ⟨data, hdata, hnodes⟩, rfl⟩
  · exact h
  · intro nodes' hkept
    rw [List.lookup_cons_self] at hkept
    cases hkept
    exact ⟨data, _, hdata, hnodes⟩

lemma Found.knows {nodes : List Node} (h : s.Found kept) (hknows : s.Knows kept nodes) :
    ∃ data inputs, s.payload = .ok data ∧ Param.RowTree inputs s.limits data nodes := by
  rcases hknows with hkept | ⟨-, data, hdata, hnodes⟩
  · exact h nodes hkept
  · exact ⟨data, _, hdata, hnodes⟩

/-- The bytes behind the selector lie in the record. -/
lemma exists_slice_of_payload {data : Bytes} (h : s.payload = .ok data) : ∃ size input,
    s.node.size = some size ∧ s.encoded.slice? s.node.offset size = some input ∧
      selectorSize ≤ size ∧ data.length = size - selectorSize := by
  unfold payload at h
  cases hslice : s.node.slice? s.encoded with
  | none => simp [hslice] at h
  | some input =>
    obtain ⟨size, hsize, hinput⟩ := Node.slice?_eq_some_iff.mp hslice
    have hlen := Bytes.length_of_slice? hinput
    by_cases hle : selectorSize ≤ input.length
    · simp only [hslice, hle, if_true, Except.ok.injEq] at h
      refine ⟨size, input, hsize, hinput, by omega, ?_⟩
      rw [← h, List.length_drop, hlen]
    · simp [hslice, hle] at h

lemma sound_of_selectorSpan {encoded : Bytes} {n : Node} {span : Span}
    (hsize : encoded.length < offsetBound) (hn : n.Stands encoded)
    (h : selectorSpan n = .ok span) : span.Sound encoded ∧ span = ⟨n.offset, selectorSize⟩ := by
  cases hnode : n.size with
  | none => simp [selectorSpan, hnode, selectorSize] at h
  | some size =>
    have hfits : Span.Fits ⟨n.offset, size⟩ encoded :=
      hn.fits (by rw [Node.span?, hnode, Option.map_some])
    rw [Span.fits_mk] at hfits
    by_cases hlt : size < selectorSize
    · simp [selectorSpan, hnode, hlt] at h
    · simp only [selectorSpan, hnode, Option.getD_some, hlt, if_false, Except.ok.injEq] at h
      subst h
      exact ⟨(Span.fits_mk.mpr (by omega)).sound hsize, rfl⟩

/-- Each range that a pick comes to lies where it should, whatever the call data is. -/
lemma within_of_picks (hsize : s.encoded.length < offsetBound) (hn : s.node.Stands s.encoded)
    (hkept : s.Found kept) {part : CallPart} {span : Span} (h : s.Picks kept part span) :
    s.Within part span := by
  cases part with
  | signature =>
    obtain ⟨hsound, hspan⟩ := sound_of_selectorSpan hsize hn h
    exact ⟨hsound, fun _ => hspan, fun _ heq => by cases heq⟩
  | argument name =>
    obtain ⟨i, nodes, m, inner, -, hknows, hm, hinner, rfl⟩ := h
    obtain ⟨data, inputs, hdata, hnodes⟩ := hkept.knows hknows
    obtain ⟨size, input, hnode, hinput, hle, hlen⟩ := exists_slice_of_payload hdata
    obtain ⟨msize, hmsize, rfl⟩ := Option.map_eq_some_iff.mp hinner
    obtain ⟨hfit, -⟩ := hnodes.slice? hm hmsize
    obtain ⟨hend, -⟩ := Bytes.slice?_eq_some_iff.mp hinput
    rw [hlen] at hfit
    have houter : Span.Fits ⟨s.node.offset + selectorSize, size - selectorSize⟩ s.encoded :=
      Span.fits_mk.mpr (by omega)
    have hlies : (Span.shift ⟨m.offset, msize⟩ (s.node.offset + selectorSize)).LiesIn s.encoded
        ⟨s.node.offset + selectorSize, size - selectorSize⟩ := ⟨houter.sound hsize, _, hfit, rfl⟩
    exact ⟨hlies.sound, fun heq => (by cases heq), fun _ _ => ⟨size, hnode, hle, hlies⟩⟩

lemma always_pick_within (hsize : s.encoded.length < offsetBound) (hn : s.node.Stands s.encoded)
    (part : CallPart) {state : PickState Located} (hstate : s.Found state.located) :
    Always (s.pick part) state fun r state' =>
      s.Found state'.located ∧ ∀ span, r = .ok span → s.Within part span := by
  refine (always_pick part).mono fun r state' hpost => ?_
  obtain ⟨hfills, hpicks⟩ := hpost
  exact ⟨hstate.fills hfills, fun span h => within_of_picks hsize hn hstate ((hpicks span).mp h)⟩

end CallScope

/-! ### Whole sessions -/

/-- The record is small enough, and all that its tree shows lies in it. -/
structure Record.Stands (r : Record) : Prop where
  small : r.encoded.length < offsetBound
  tree : ∀ n ∈ r.tree, n.Stands r.encoded

namespace Record

variable {r : Record} {n : Node}

lemma Stands.field {f : Field} (h : r.Stands) (hn : r.field? f = some n) :
    n.Stands r.encoded := by
  obtain ⟨i, -, hi⟩ := Option.bind_eq_some_iff.mp hn
  exact h.tree n (List.mem_of_getElem? hi)

lemma Stands.logNode {i : ℕ} (h : r.Stands) (hn : Query.logNode r i = .ok n) :
    n.Stands r.encoded := by
  unfold Query.logNode at hn
  cases hlogs : r.field? .logs with
  | none => simp [hlogs] at hn
  | some logs =>
    cases hc : logs.child? i with
    | none => simp [hlogs, hc] at hn
    | some c =>
      simp only [hlogs, hc, Except.ok.injEq] at hn
      exact hn ▸ (h.field hlogs).child hc

lemma Stands.staticSpan (hr : r.Stands) {f : Field} {span : Span}
    (h : Query.staticSpan r f = .ok span) : span.Sound r.encoded := by
  unfold Query.staticSpan at h
  split at h
  · cases h
  · rename_i n hn
    split at h
    · cases h
    · exact ((hr.field hn).fits (Node.span_eq_ok h)).sound hr.small

lemma Stands.selectorSpan (hr : r.Stands) {span : Span}
    (h : Query.selectorSpan r = .ok span) : span.Sound r.encoded := by
  unfold Query.selectorSpan at h
  cases hn : Query.callNode r with
  | error fault => simp [hn, bind, Except.bind] at h
  | ok n =>
    by_cases hzero : n.size.getD 0 = 0
    · simp [hn, hzero, bind, Except.bind, throw, throwThe, MonadExceptOf.throw] at h
    · simp only [hn, hzero, bind, Except.bind, if_false] at h
      exact (CallScope.sound_of_selectorSpan hr.small
        (hr.field (Query.callNode_eq_ok_iff.mp hn)) h).1

lemma stands_of_ofEncoded {tx : Transaction} {receipt : Receipt} {encoded : Bytes}
    {settings : Settings} {library : Library} {notices : List Notice}
    (h : Record.ofEncoded tx receipt encoded settings library = .ok (r, notices))
    (hsize : encoded.length < offsetBound) : r.encoded = encoded ∧ r.Stands := by
  obtain ⟨tree, index, progress, htree, -, rfl, -⟩ := Record.ofEncoded_inv h
  exact ⟨rfl, hsize, Layout.locate_stands (congrArg Prod.fst htree)⟩

end Record

/-- A piece lies in the record, and one of a log or a call where that is. -/
structure Piece.Within (encoded : Bytes) (piece : Piece) : Prop where
  sound : piece.span.Sound encoded
  log : ∀ scope part span, piece = .log scope part span → scope.Within part span
  call : ∀ scope part span, piece = .call scope part span → scope.Within part span

/-- A range of the caller is contributed as it is given, and all other pieces lie in the record. -/
def Operation.Contained (encoded : Bytes) : Operation → List Piece → Prop
  | .manual span, part => part = [.manual span]
  | _, part => ∀ piece ∈ part, piece.Within encoded

namespace Session

variable {s : Session} {op : Operation} {part : List Piece}

lemma within_fixed {encoded : Bytes} {span : Span} (h : span.Sound encoded) :
    ∀ piece ∈ [Piece.fixed span], piece.Within encoded := by
  intro piece hpiece
  rw [List.mem_singleton.mp hpiece]
  exact ⟨h, fun _ _ _ heq => (by cases heq), fun _ _ _ heq => (by cases heq)⟩

lemma within_of_plansLog {r : Record} (hr : r.Stands) {configure : Occurrence → Plan LogPart}
    {o : Occurrence} (h : r.PlansLog configure o part) :
    ∀ piece ∈ part, piece.Within r.encoded := by
  obtain ⟨n, gathered, state, hn, hgathers, rfl⟩ := h
  have hstep : ∀ part state, (r.scope o n).Found state →
      Always ((r.scope o n).pick part) state fun outcome state' => (r.scope o n).Found state' ∧
        ∀ span, outcome = .ok span → (r.scope o n).Within part span :=
    fun part _ => LogScope.always_pick_within (s := r.scope o n) hr.small (hr.logNode hn) part
  have hall := hgathers.forall_mem hstep (fun _ hl => by cases hl) (by simp)
  intro piece hpiece
  obtain ⟨e, he, rfl⟩ := List.mem_map.mp hpiece
  have hwithin := hall e he e.2 rfl
  refine ⟨hwithin.sound, fun _ _ _ heq => ?_, fun _ _ _ heq => (by cases heq)⟩
  cases heq
  exact hwithin

/-- Justified entries were found in the bytes behind the selector. -/
lemma Justified.found (h : s.Justified) {f : Function} {n : Node}
    (hn : s.record.field? .data = some n) : (s.record.callScope f n).Found s.callTrees := by
  intro nodes hlookup
  obtain ⟨i, g, n', -, -, -, hn', data, hdata, hnodes⟩ := h _ (mem_of_lookup hlookup)
  rw [hn] at hn'
  cases hn'
  exact ⟨data, g.inputs, hdata, hnodes⟩

lemma within_of_gathers {r : Record} (hr : r.Stands) {f : Function} {n : Node}
    (hn : r.field? .data = some n) {kept : CallScope.Located}
    (hkept : (r.callScope f n).Found kept) {plan : Plan CallPart}
    {state : PickState CallScope.Located} {verdict : Except QueryFault Unit}
    {gathered : List (CallPart × Span)}
    (h : Plan.Gathers (r.callScope f n).pick plan { located := kept } [] verdict state gathered) :
    ∀ piece ∈ gathered.map (fun e => Piece.call (r.callScope f n) e.1 e.2),
      piece.Within r.encoded := by
  have hstep : ∀ part (state : PickState CallScope.Located),
      (r.callScope f n).Found state.located →
      Always ((r.callScope f n).pick part) state fun outcome state' =>
        (r.callScope f n).Found state'.located ∧
          ∀ span, outcome = .ok span → (r.callScope f n).Within part span :=
    fun part _ => CallScope.always_pick_within (s := r.callScope f n) hr.small (hr.field hn) part
  have hall := h.forall_mem hstep hkept (by simp)
  intro piece hpiece
  obtain ⟨e, he, rfl⟩ := List.mem_map.mp hpiece
  have hwithin := hall e he e.2 rfl
  refine ⟨hwithin.sound, fun _ _ _ heq => (by cases heq), fun _ _ _ heq => ?_⟩
  cases heq
  exact hwithin

/-- Whatever an operation adds is contained in the record. -/
lemma Adds.contained (hr : s.record.Stands) (hs : s.Justified) (h : s.Adds op part) :
    op.Contained s.record.encoded part := by
  -- By induction, since some operations add what another one would.
  induction h with
  | staticField hspan => exact within_fixed (hr.staticSpan hspan)
  | manual => rfl
  | functionSignature hspan => exact within_fixed (hr.selectorSpan hspan)
  | noEvent => exact fun _ hpiece => by cases hpiece
  | event _ hplans => exact within_of_plansLog hr hplans
  | allEvents _ _ hplans =>
    intro piece hpiece
    obtain ⟨part, hpart, hpiece⟩ := List.mem_flatten.mp hpiece
    obtain ⟨o, -, ho⟩ := Layout.exists_left_of_mem hplans hpart
    exact within_of_plansLog hr ho piece hpiece
  | eventSignature _ ih => exact ih
  | eventArgument _ ih => exact ih
  | call _ hn hgathers => exact within_of_gathers hr hn (hs.found hn) hgathers
  | functionArgument _ ih => exact ih
  | setSource => exact fun _ hpiece => by cases hpiece

lemma Contributes.contained (hr : s.record.Stands) (hs : s.Justified)
    (h : s.Contributes op part) : op.Contained s.record.encoded part := by
  rcases h with ⟨-, hadds⟩ | hfault
  · exact hadds.contained hr hs
  · cases op with
    | manual span => cases hfault
    | _ => exact fun _ hpiece => by cases hpiece

/-- **Every range lies in the record.** In a session over a record that was located, whatever the
receipt and the input are and whatever is asked for, an operation contributes the range of the
caller as it is given, or else ranges that lie in the record: that of an argument in the data of
a log lies in the data of that log, and that of an argument of a call in the call data behind the
selector. -/
theorem performAll_within {tx : Transaction} {receipt : Receipt} {encoded : Bytes}
    {settings : Settings} {library : Library}
    (hopened : Session.ofEncoded tx receipt encoded settings library = .ok s)
    (hsize : encoded.length < offsetBound) (ops : List Operation) : ∃ parts,
      (s.performAll ops).spans = parts.flatten.map Piece.span ∧
        List.Forall₂ (fun step part =>
          step.1.Contributes step.2 part ∧ step.2.Contained encoded part) (s.steps ops) parts := by
  obtain ⟨notices, hrecord, hfresh⟩ := ofEncoded_inv hopened
  have htrees : s.callTrees = [] := by rw [hfresh]
  have hspans : s.spans = [] := by rw [hfresh]
  obtain ⟨hencoded, hstands⟩ := Record.stands_of_ofEncoded hrecord hsize
  have hjustified := justified_of_callTrees_eq_nil htrees
  have hstep : ∀ step ∈ s.steps ops, ∀ part, step.1.Contributes step.2 part →
      step.2.Contained encoded part := by
    intro step hmem part hpart
    have hmoves := moves_of_mem_steps hmem
    rw [← hencoded, ← hmoves.record_eq]
    exact hpart.contained (by rwa [hmoves.record_eq]) (hmoves.justified hjustified)
  obtain ⟨parts, hparts, hall⟩ := s.exists_parts ops
  refine ⟨parts, by rw [hall, hspans, List.nil_append], ?_⟩
  exact ((List.forall₂_and_left _ _).mpr ⟨hstep, hparts⟩).imp fun _ _ h => ⟨h.2, h.1 _ h.2⟩

end Session

/-- Two ranges of the record, and between them one of the caller. -/
def payOperations : List Operation := [.functionSignature, .manual ⟨9, 9⟩, .staticField .nonce]

/-- The ranges of a short run over the record of a payment. -/
theorem payOpened_within : payRecord.length < offsetBound ∧
    (payOpened.performAll payOperations).spans = [⟨512, 4⟩, ⟨9, 9⟩, ⟨32, 32⟩] ∧
    ∃ parts, (payOpened.performAll payOperations).spans = parts.flatten.map Piece.span ∧
      List.Forall₂ (fun step part =>
          step.1.Contributes step.2 part ∧ step.2.Contained payRecord part)
        (payOpened.steps payOperations) parts := by
  have hsize : payRecord.length < offsetBound := by decide +kernel
  exact ⟨hsize, by decide +kernel,
    Session.performAll_within ofEncoded_payRecord hsize payOperations⟩

end AbiSpan
