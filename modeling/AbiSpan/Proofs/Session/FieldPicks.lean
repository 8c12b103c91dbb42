import AbiSpan.Proofs.Record.Indexing
import AbiSpan.Proofs.Session.CallPicks

/-!
What adding the fields of a record adds.

Every field of a record takes one word, whatever its kind, and is a word itself, a byte string or
an array. So where a field begins is read off its place in the schema: a word is found there
whatever the record holds, a byte string has its pointer there, and only arrays have no range to be
added. This is said once of what `Query.staticSpan` comes to, by cases on the type of the field;
adding a field and adding the selector of the call data are read off that.
-/

namespace AbiSpan

/-- The fields of a record are words, byte strings and arrays. -/
lemma TxKind.shape_of_mem_types {k : TxKind} :
    ∀ t ∈ k.types, t.isScalar = true ∨ t = .bytes ∨ ∃ u, t = .array u := by
  intro t ht
  obtain ⟨entry, hentry, rfl⟩ := List.mem_map.mp ht
  have hfield := Schema.isField_of_mem entry hentry
  cases hshape : entry.2 <;> simp_all [AbiType.isField, AbiType.isScalar]

namespace Record

/-- The fields that the record has, in order. -/
abbrev schema (r : Record) : Schema := Schema.ofKind .v1 r.tx.kind

/-- The record is one that has been opened. -/
def Opened (r : Record) : Prop :=
  ∃ receipt settings library notices,
    ofEncoded r.tx receipt r.encoded settings library = .ok (r, notices)

/-- The range of a field, by what the schema says of the field and what the record holds. -/
inductive Places (r : Record) (f : Field) : Except QueryFault Span → Prop
  | absent : (∀ t, (f, t) ∉ r.schema) → Places r f (.error (.fieldAbsent f.name r.tx.kind.code))
  | word {k : Nat} {t : AbiType} : r.schema[k]? = some (f, t) → t.isScalar = true →
    Places r f (.ok ⟨wordSize * k, wordSize⟩)
  | bytes {k pointer size : Nat} : r.schema[k]? = some (f, .bytes) →
    r.encoded.IndexAt (wordSize * k) pointer → r.encoded.IndexAt pointer size →
    pointer + wordSize + size ≤ r.encoded.length → Places r f (.ok ⟨pointer + wordSize, size⟩)
  | array {k : Nat} {u : AbiType} : r.schema[k]? = some (f, .array u) →
    Places r f (.error (.fieldDynamic f.name (AbiType.array u).name))

variable {r : Record} {f : Field} {k k' : ℕ} {t t' : AbiType} {n : Node}

/-- A field stands in the schema once. -/
lemma schema_unique (h : r.schema[k]? = some (f, t)) (h' : r.schema[k']? = some (f, t')) :
    k = k' ∧ t = t' := by
  have hnodup := Schema.nodup_ofKind .v1 r.tx.kind
  have hk := Schema.getElem?_map_fst.mpr ⟨t, h⟩
  have hk' := Schema.getElem?_map_fst.mpr ⟨t', h'⟩
  obtain ⟨hlt, -⟩ := List.getElem?_eq_some_iff.mp hk
  obtain rfl := (List.getElem?_inj hlt hnodup).mp (hk.trans hk'.symm)
  rw [h] at h'
  cases h'
  exact ⟨rfl, rfl⟩

lemma type_unique (h : r.schema[k]? = some (f, t)) (h' : (f, t') ∈ r.schema) : t = t' := by
  obtain ⟨k', hk'⟩ := List.mem_iff_getElem?.mp h'
  exact (schema_unique h hk').2

/-- The node of a field is laid out from the word at the place of the field. -/
lemma Opened.slot_of_field (h : r.Opened) (hk : r.schema[k]? = some (f, t)) :
    ∃ (limits : Limits) (n : Node), r.field? f = some n ∧
      Layout.Slot { bytes := r.encoded, limits } 0 t (wordSize * k) n := by
  obtain ⟨receipt, settings, library, notices, hr⟩ := h
  have htree := ofEncoded_tree hr
  have ht : r.tx.kind.types[k]? = some t := by
    rw [TxKind.types, Schema.types, List.getElem?_map, hk, Option.map_some]
  obtain ⟨n, hn, hslot⟩ := (Layout.locate_fst_eq_ok_iff.mp htree).1.slot_at ht
  rw [TxKind.rowSize_take ht, Nat.zero_add, Nat.mul_comm] at hslot
  exact ⟨settings.limits, n, (field?_iff hr).mpr ⟨k, t, hk, hn⟩, hslot⟩

/-- The range of a field that the record has, by the type of the field. -/
lemma Opened.places_of_field (h : r.Opened) (hk : r.schema[k]? = some (f, t)) :
    r.Places f (Query.staticSpan r f) := by
  obtain ⟨limits, n, hn, hslot⟩ := h.slot_of_field hk
  have hmem : t ∈ r.tx.kind.types := List.mem_map_of_mem (List.mem_of_getElem? hk)
  rcases TxKind.shape_of_mem_types t hmem with hword | rfl | ⟨u, rfl⟩
  · obtain ⟨w, -, rfl⟩ := (Layout.slot_scalar_iff hword).mp hslot
    have hspan : Query.staticSpan r f = .ok ⟨wordSize * k, wordSize⟩ := by
      rw [Query.staticSpan, hn]
      rfl
    exact hspan ▸ .word hk hword
  · obtain ⟨pointer, hpointer, -, htail⟩ := (Layout.slot_dynamic_iff rfl).mp hslot
    rw [Nat.zero_add] at htail
    obtain ⟨s, hsize, hroom, -, rfl⟩ := (Layout.tail_payload_iff rfl).mp htail
    have hspan : Query.staticSpan r f = .ok ⟨pointer + wordSize, s.length⟩ := by
      rw [Query.staticSpan, hn]
      rfl
    exact hspan ▸ .bytes hk hpointer hsize hroom.le_size
  · obtain ⟨pointer, -, -, htail⟩ := (Layout.slot_dynamic_iff rfl).mp hslot
    obtain ⟨ns, -, -, rfl⟩ := Layout.tail_array_iff.mp htail
    have hspan : Query.staticSpan r f =
        .error (.fieldDynamic f.name (AbiType.array u).name) := by
      rw [Query.staticSpan, hn]
      rfl
    exact hspan ▸ .array hk

/-- **Where the fields of a record are.** -/
lemma Opened.places (h : r.Opened) (f : Field) : r.Places f (Query.staticSpan r f) := by
  by_cases hf : ∃ t, (f, t) ∈ r.schema
  · obtain ⟨t, ht⟩ := hf
    obtain ⟨k, hk⟩ := List.mem_iff_getElem?.mp ht
    exact h.places_of_field hk
  · have habsent : ∀ t, (f, t) ∉ r.schema := fun t ht => hf ⟨t, ht⟩
    have hnone : r.field? f = none := by
      obtain ⟨receipt, settings, library, notices, hr⟩ := h
      by_contra hsome
      obtain ⟨n, hn⟩ := Option.ne_none_iff_exists'.mp hsome
      obtain ⟨k, t, hk, -⟩ := (field?_iff hr).mp hn
      exact habsent t (List.mem_of_getElem? hk)
    have hspan : Query.staticSpan r f = .error (.fieldAbsent f.name r.tx.kind.code) := by
      rw [Query.staticSpan, hnone]
    exact hspan ▸ .absent habsent

/-! ### What the place of a field decides -/

variable {x : Except QueryFault Span}

/-- Only fields that there are not, and arrays, have no range. -/
lemma Places.error_iff (h : r.Places f x) (fault : QueryFault) : x = .error fault ↔
    (∀ t, (f, t) ∉ r.schema) ∧ fault = .fieldAbsent f.name r.tx.kind.code ∨
    ∃ u, (f, .array u) ∈ r.schema ∧ fault = .fieldDynamic f.name (AbiType.array u).name := by
  have hfound {k : ℕ} {t : AbiType} (hk : r.schema[k]? = some (f, t)) : ¬ ∀ t, (f, t) ∉ r.schema :=
    fun habsent => habsent t (List.mem_of_getElem? hk)
  have hno {k : ℕ} {t : AbiType} (hk : r.schema[k]? = some (f, t)) (hshape : ∀ u, t ≠ .array u) :
      ¬ ∃ u, (f, .array u) ∈ r.schema := fun harray => by
    obtain ⟨u, hu⟩ := harray
    exact hshape u (type_unique hk hu)
  cases h with
  | absent habsent =>
    constructor
    · rintro ⟨⟩
      exact .inl ⟨habsent, rfl⟩
    · rintro (⟨-, rfl⟩ | ⟨u, hu, -⟩)
      · rfl
      · exact absurd hu (habsent _)
  | word hk hword =>
    simp only [reduceCtorEq, false_iff]
    rintro (⟨habsent, -⟩ | ⟨u, hu, -⟩)
    · exact hfound hk habsent
    · exact hno hk (by rintro u rfl; cases hword) ⟨u, hu⟩
  | bytes hk =>
    simp only [reduceCtorEq, false_iff]
    rintro (⟨habsent, -⟩ | ⟨u, hu, -⟩)
    · exact hfound hk habsent
    · exact hno hk (by rintro u ⟨⟩) ⟨u, hu⟩
  | array hk =>
    constructor
    · rintro ⟨⟩
      exact .inr ⟨_, List.mem_of_getElem? hk, rfl⟩
    · rintro (⟨habsent, -⟩ | ⟨u, hu, rfl⟩)
      · exact absurd habsent (hfound hk)
      · cases type_unique hk hu
        rfl

lemma Places.eq_word (h : r.Places f x) (hk : r.schema[k]? = some (f, t))
    (hd : t.isDynamic = false) : x = .ok ⟨32 * k, 32⟩ := by
  cases h with
  | absent habsent => exact absurd (List.mem_of_getElem? hk) (habsent t)
  | word hk' =>
    obtain ⟨rfl, -⟩ := schema_unique hk hk'
    rfl
  | bytes hk' =>
    cases (schema_unique hk hk').2
    cases hd
  | array hk' =>
    cases (schema_unique hk hk').2
    cases hd

lemma Places.eq_bytes (h : r.Places f x) (hk : r.schema[k]? = some (f, .bytes)) :
    ∃ offset size pointer, x = .ok ⟨offset, size⟩ ∧ r.encoded.IndexAt (32 * k) pointer ∧
      offset = pointer + 32 ∧ r.encoded.IndexAt (offset - 32) size ∧
      offset + size ≤ r.encoded.length := by
  cases h with
  | absent habsent => exact absurd (List.mem_of_getElem? hk) (habsent _)
  | word hk' hword =>
    cases (schema_unique hk hk').2
    cases hword
  | bytes hk' hpointer hsize hroom =>
    obtain ⟨rfl, -⟩ := schema_unique hk hk'
    exact ⟨_, _, _, rfl, hpointer, rfl, by rwa [wordSize, Nat.add_sub_cancel], hroom⟩
  | array hk' => cases (schema_unique hk hk').2

end Record

namespace Session

/-- What adding a field to the ranges of a session comes to. -/
structure AddsField (s : Session) (f : Field) (r : Except QueryFault Unit) (s' : Session) :
    Prop where
  /-- It fails for a field that the kind of the record lacks and for an array, and for no other. -/
  error_iff : ∀ fault, r = .error fault ↔
    (∀ t, (f, t) ∉ s.record.schema) ∧ fault = .fieldAbsent f.name s.record.tx.kind.code ∨
    ∃ u, (f, .array u) ∈ s.record.schema ∧ fault = .fieldDynamic f.name (AbiType.array u).name
  kept : ∀ fault, r = .error fault → s'.spans = s.spans
  /-- A static field is the word at its place, whatever the record holds. -/
  word : ∀ (k : Nat) t, s.record.schema[k]? = some (f, t) → t.isDynamic = false →
    s'.spans = s.spans ++ [⟨32 * k, 32⟩]
  /-- A byte string stands behind its length, which the word at its place points to. -/
  bytes : ∀ (k : Nat), s.record.schema[k]? = some (f, .bytes) → ∃ offset size pointer,
    s'.spans = s.spans ++ [⟨offset, size⟩] ∧
    s.record.encoded.IndexAt (32 * k) pointer ∧ offset = pointer + 32 ∧
    s.record.encoded.IndexAt (offset - 32) size ∧ offset + size ≤ s.record.encoded.length

/-- What adding the selector of the call data comes to, `data` being the range of the call data. -/
structure AddsSelector (s : Session) (data : Span) (r : Except QueryFault Unit) (s' : Session) :
    Prop where
  /-- The range is the one that adding the call data as a field adds. -/
  range : (s.perform (.staticField .data)).2.spans = s.spans ++ [data]
  size : ∃ n, s.record.field? .data = some n ∧ n.size = some data.size
  error_iff : ∀ fault, r = .error fault ↔
    data.size = 0 ∧ fault = .noCallData ∨
    (1 ≤ data.size ∧ data.size ≤ 3) ∧ fault = .callDataTooShort data.size
  kept : ∀ fault, r = .error fault → s'.spans = s.spans
  added : r = .ok () → s'.spans = s.spans ++ [⟨data.offset, 4⟩]

variable {s s' : Session} {f : Field} {span : Span} {fault : QueryFault}

/-- Gathering one range that is found in the record. -/
lemma outcome_gather_one (find : Record → Except QueryFault Span) (s : Session) :
    outcome (do Query.gather [← MonadExcept.ofExcept (find (← Query.record))]) s =
      match find s.record with
      | .ok span => (.ok (), { s with spans := s.spans ++ [span] })
      | .error fault => (.error fault, s) := by
  have hrecord : outcome Query.record s = (.ok s.record, s) := rfl
  rw [outcome_bind_ok hrecord]
  cases find s.record <;> rfl

lemma perform_staticField_ok (h : Query.staticSpan s.record f = .ok span) :
    s.perform (.staticField f) = (.ok (), { s with spans := s.spans ++ [span] }) := by
  show outcome (Query.staticField f) s = _
  rw [Query.staticField, outcome_gather_one (Query.staticSpan · f), h]

lemma perform_staticField_error (h : Query.staticSpan s.record f = .error fault) :
    s.perform (.staticField f) = (.error fault, s) := by
  show outcome (Query.staticField f) s = _
  rw [Query.staticField, outcome_gather_one (Query.staticSpan · f), h]

lemma Reachable.opened (h : s.Reachable) : s.record.Opened := by
  obtain ⟨tx, receipt, encoded, settings, library, opened, ops, hopened, rfl⟩ := h
  obtain ⟨notices, hr, -⟩ := ofEncoded_inv hopened
  rw [(opened.moves_performAll ops).record_eq]
  refine ⟨receipt, settings, library, notices, ?_⟩
  obtain ⟨tree, index, progress, -, -, hrecord, -⟩ := Record.ofEncoded_inv hr
  rw [hrecord] at hr ⊢
  exact hr

/-- Adding a field adds its range, if it has one. -/
lemma addsField (h : s.record.Opened) (f : Field) :
    s.AddsField f (s.perform (.staticField f)).1 (s.perform (.staticField f)).2 := by
  have hplaces := h.places f
  have herrors := hplaces.error_iff
  cases hspan : Query.staticSpan s.record f with
  | error fault =>
    rw [perform_staticField_error hspan]
    rw [hspan] at hplaces herrors
    refine ⟨fun fault' => ?_, fun _ _ => rfl, fun k t hk hd => ?_, fun k hk => ?_⟩
    · rw [← herrors fault', Except.error.injEq, Except.error.injEq]
    · cases hplaces.eq_word hk hd
    · obtain ⟨_, _, _, hok, -⟩ := hplaces.eq_bytes hk
      cases hok
  | ok span =>
    rw [perform_staticField_ok hspan]
    rw [hspan] at hplaces herrors
    refine ⟨fun fault => ?_, fun _ hfault => (by cases hfault), fun k t hk hd => ?_,
      fun k hk => ?_⟩
    · rw [← herrors fault]
      simp only [reduceCtorEq]
    · cases hplaces.eq_word hk hd
      rfl
    · obtain ⟨offset, size, pointer, hok, hrest⟩ := hplaces.eq_bytes hk
      cases hok
      exact ⟨_, _, pointer, rfl, hrest⟩

/-! ### The selector -/

lemma data_mem_schema (r : Record) : (Field.data, AbiType.bytes) ∈ r.schema := by
  have hmem : (Field.data, Descriptor.bytes) ∈ FieldTable.ofKind .v1 r.tx.kind := by
    cases r.tx.kind <;> simp [FieldTable.ofKind, FieldTable.transaction, FieldTable.capped,
      FieldTable.call]
  exact List.mem_map_of_mem hmem

/-- The node that a range is of. -/
lemma staticSpan_eq_ok {r : Record} (h : Query.staticSpan r f = .ok span) :
    ∃ n, r.field? f = some n ∧ n.size = some span.size ∧ n.offset = span.offset := by
  unfold Query.staticSpan at h
  split at h
  · cases h
  · rename_i n hn
    split at h
    · cases h
    · cases hsize : n.size with
      | none => simp [Node.span, hsize] at h
      | some size =>
        simp only [Node.span, hsize, Except.ok.injEq] at h
        subst h
        exact ⟨n, hn, hsize, rfl⟩

lemma selectorSpan_eq {r : Record} {n : Node} {size : ℕ} (hn : r.field? .data = some n)
    (hsize : n.size = some size) : Query.selectorSpan r =
      if size = 0 then .error .noCallData
      else if size < selectorSize then .error (.callDataTooShort size)
      else .ok ⟨n.offset, selectorSize⟩ := by
  have hcall : Query.callNode r = .ok n := by rw [Query.callNode, hn]
  have hdefault : n.size.getD 0 = size := by rw [hsize, Option.getD_some]
  by_cases hzero : size = 0
  · simp [Query.selectorSpan, hcall, hdefault, hzero, bind, Except.bind, throw, throwThe,
      MonadExceptOf.throw]
  · simp [Query.selectorSpan, CallScope.selectorSpan, hcall, hdefault, hzero, bind, Except.bind]

lemma perform_functionSignature : s.perform .functionSignature =
    match Query.selectorSpan s.record with
    | .ok span => (.ok (), { s with spans := s.spans ++ [span] })
    | .error fault => (.error fault, s) := outcome_gather_one Query.selectorSpan s

/-- Adding the selector adds the front of the call data, if that is long enough. -/
lemma exists_addsSelector (h : s.record.Opened) : ∃ data, s.AddsSelector data
    (s.perform .functionSignature).1 (s.perform .functionSignature).2 := by
  obtain ⟨k, hk⟩ := List.mem_iff_getElem?.mp (data_mem_schema s.record)
  obtain ⟨offset, size, -, hspan, -⟩ := (h.places .data).eq_bytes hk
  obtain ⟨n, hn, hsize, hoffset⟩ := staticSpan_eq_ok hspan
  have hselector := selectorSpan_eq hn hsize
  refine ⟨⟨offset, size⟩, ?_⟩
  have hrange : (s.perform (.staticField .data)).2.spans = s.spans ++ [⟨offset, size⟩] := by
    rw [perform_staticField_ok hspan]
  rw [perform_functionSignature, hselector]
  simp only at hoffset ⊢
  split_ifs with hzero hshort
  · refine ⟨hrange, ⟨n, hn, hsize⟩, fun fault => ?_, fun _ _ => rfl, fun hok => (by cases hok)⟩
    simp [hzero, eq_comm]
  · refine ⟨hrange, ⟨n, hn, hsize⟩, fun fault => ?_, fun _ _ => rfl, fun hok => (by cases hok)⟩
    have hfew : 1 ≤ size ∧ size ≤ 3 := by
      rw [selectorSize] at hshort
      omega
    simp [hzero, hfew, eq_comm]
  · refine ⟨hrange, ⟨n, hn, hsize⟩, fun fault => ?_, fun _ hfault => (by cases hfault), fun _ => ?_⟩
    · have hmany : ¬ size ≤ 3 := by
        rw [selectorSize] at hshort
        omega
      simp [hzero, hmany]
    · rw [hoffset]
      rfl

/-- **Fields are added by their place in the schema.** In every session that can be reached over a
record, however the record came about: a static field is the word at its place, a byte string stands
behind the length that its place points to and lies in the record, arrays are refused, and so are
fields that the kind of the record lacks. The selector is the front of what would be added for the
call data, unless that has fewer than four bytes. -/
theorem perform_adds_fields (hs : s.Reachable) :
    (∀ f, s.AddsField f (s.perform (.staticField f)).1 (s.perform (.staticField f)).2) ∧
    ∃ data, s.AddsSelector data (s.perform .functionSignature).1
      (s.perform .functionSignature).2 :=
  ⟨addsField hs.opened, exists_addsSelector hs.opened⟩

end Session

/-- Of the record of a payment, whose call data lies where the eighth word points to, the logs are
refused and the nonce is the second word. -/
theorem paySession_adds_fields : paySession.Reachable ∧
    (paySession.perform (.staticField .data)).2.spans = [⟨512, 36⟩] ∧
    (paySession.perform (.staticField .nonce)).2.spans = [⟨32, 32⟩] ∧
    (paySession.perform (.staticField .logs)).1.toOption = none ∧
    (∀ f, paySession.AddsField f (paySession.perform (.staticField f)).1
      (paySession.perform (.staticField f)).2) ∧
    ∃ data, paySession.AddsSelector data (paySession.perform .functionSignature).1
      (paySession.perform .functionSignature).2 := by
  have hreachable : paySession.Reachable :=
    (Session.reachable_of_ofEncoded ofEncoded_payRecord).performAll _
  exact ⟨hreachable, by decide +kernel, by decide +kernel, by decide +kernel,
    Session.perform_adds_fields hreachable⟩

end AbiSpan
