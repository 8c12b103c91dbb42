import AbiSpan.Value.Decoder
import AbiSpan.Proofs.Bytes
import AbiSpan.Proofs.Layout.Exact

/-!
The decoder of values and the walk over a layout, held against each other.

The two are written apart: the decoder opens windows and looks at the low bytes of pointers
alone, the walk counts pointers from one base and refuses those that are too large. Nor do they
accept the same buffers. `Reads` says of any row of values where its words and payloads are taken
from, as the encoding lays them out, and the decoder meets it. Where the walk accepts too, a word or
a payload at a place of the row is read from the bytes that its node selects.
-/

namespace AbiSpan

namespace Bytes

lemma toNat_append (a b : Bytes) : toNat (a ++ b) = toNat a * 256 ^ b.length + toNat b := by
  induction b using List.reverseRecOn with
  | nil => simp
  | append_singleton b x ih =>
    rw [← List.append_assoc, toNat_snoc, ih, toNat_snoc, List.length_append, List.length_singleton,
      pow_succ]
    ring

/-- A word that spells a small number spells it with its low bytes. -/
lemma toNat_drop_of_lt {w : Bytes} {k : ℕ} (h : w.toNat < 256 ^ (w.length - k)) :
    toNat (w.drop k) = w.toNat := by
  have hsplit := toNat_append (w.take k) (w.drop k)
  rw [List.take_append_drop, List.length_drop] at hsplit
  -- the high bytes would spell a multiple of the bound
  rcases Nat.eq_zero_or_pos (toNat (w.take k)) with hzero | hpos
  · rw [hsplit, hzero, Nat.zero_mul, Nat.zero_add]
  · have := Nat.le_mul_of_pos_left (256 ^ (w.length - k)) hpos
    omega

lemma IndexAt.toNat_low {b w : Bytes} {pos n : ℕ} (h : b.IndexAt pos n)
    (hw : b.slice? pos wordSize = some w) : toNat (w.drop 24) = n := by
  obtain ⟨w', hw', rfl, hlt⟩ := h
  rw [hw] at hw'
  cases hw'
  refine toNat_drop_of_lt ?_
  rw [length_of_slice? hw]
  exact hlt

end Bytes

/-- Where one reading follows another, both succeed. -/
lemma except_bind_eq_ok_iff {ε α β : Type} {x : Except ε α} {f : α → Except ε β} {b : β} :
    (x >>= f) = .ok b ↔ ∃ a, x = .ok a ∧ f a = .ok b := by
  cases x <;> simp [bind, Except.bind]

/-- What is done to each of a list succeeds where it does for each. -/
lemma except_mapM_eq_ok_iff {ε α β : Type} {f : α → Except ε β} {as : List α} {bs : List β} :
    as.mapM f = .ok bs ↔ List.Forall₂ (fun a b => f a = .ok b) as bs := by
  induction as generalizing bs with
  | nil => cases bs <;> simp [pure, Except.pure]
  | cons a as ih =>
    rw [List.mapM_cons]
    simp only [except_bind_eq_ok_iff, ih, List.forall₂_cons_left_iff]
    constructor
    · intro h
      rcases h with ⟨b, hb, bs', hbs', hok⟩
      cases hok
      exact ⟨b, bs', hb, hbs', rfl⟩
    · intro h
      rcases h with ⟨b, bs', hb, hbs', rfl⟩
      exact ⟨b, hb, bs', hbs', rfl⟩

namespace Value.Decoder

variable {w w' : Window} {t : AbiType} {ts : List AbiType} {v : Value} {vs : List Value}

/-- The window `w'` is `w` with so many more bytes behind it. -/
structure Window.Passes (w : Window) (size : Nat) (w' : Window) : Prop where
  bytes_eq : w'.bytes = w.bytes
  position_eq : w'.position = w.position + size

/-! ### What the readers of a window come to -/

lemma word_eq_ok {b : Bytes} : w.word = .ok (b, w') ↔
    w.bytes.slice? w.position wordSize = some b ∧
      w' = { w with position := w.position + wordSize } := by
  unfold Window.word
  cases w.bytes.slice? w.position wordSize with
  | none => simp
  | some b' => simp [eq_comm]

lemma index_eq_ok {n : ℕ} : w.index = .ok (n, w') ↔
    ∃ b, w.bytes.slice? w.position wordSize = some b ∧ n = Bytes.toNat (b.drop 24) ∧
      w' = { w with position := w.position + wordSize } := by
  simp only [Window.index, except_bind_eq_ok_iff, Prod.exists, word_eq_ok]
  constructor
  · intro h
    rcases h with ⟨b, _, ⟨hb, rfl⟩, hok⟩
    cases hok
    exact ⟨b, hb, rfl, rfl⟩
  · intro h
    rcases h with ⟨b, hb, rfl, rfl⟩
    exact ⟨b, _, ⟨hb, rfl⟩, rfl⟩

/-- A window at an offset holds what lies behind the offset. -/
lemma enter_eq_ok {offset : ℕ} {inner : Window} (h : w.enter offset = .ok inner) :
    offset ≤ w.bytes.length ∧ inner.bytes = w.bytes.drop offset ∧ inner.position = 0 := by
  unfold Window.enter at h
  split at h
  · cases h
  · split at h
    · rename_i hle
      cases h
      exact ⟨hle, rfl, rfl⟩
    · cases h

lemma follow_eq_ok {inner : Window} (h : w.follow = .ok (inner, w')) : ∃ b,
    w.bytes.slice? w.position wordSize = some b ∧ w.Passes wordSize w' ∧
      w.enter (Bytes.toNat (b.drop 24)) = .ok inner := by
  simp only [Window.follow, except_bind_eq_ok_iff, Prod.exists, index_eq_ok] at h
  obtain ⟨_, _, ⟨b, hb, rfl, rfl⟩, inner', henter, hok⟩ := h
  cases hok
  exact ⟨b, hb, ⟨rfl, rfl⟩, henter⟩

/-- The bytes of a payload stand behind the pointer at the position, and behind their length. -/
lemma payload_eq_ok {s : Bytes} (h : payload w = .ok (s, w')) : ∃ b c,
    w.bytes.slice? w.position wordSize = some b ∧ w.Passes wordSize w' ∧
      w.bytes.slice? (Bytes.toNat (b.drop 24)) wordSize = some c ∧
      w.bytes.slice? (Bytes.toNat (b.drop 24) + wordSize) (Bytes.toNat (c.drop 24)) = some s := by
  simp only [payload, except_bind_eq_ok_iff, Prod.exists, index_eq_ok] at h
  obtain ⟨inner, w1, hfollow, size, inner', ⟨c, hc, rfl, rfl⟩, hok⟩ := h
  obtain ⟨b, hb, hpass, henter⟩ := follow_eq_ok hfollow
  obtain ⟨hle, hbytes, hpos⟩ := enter_eq_ok henter
  rw [hbytes, hpos, Bytes.slice?_drop hle] at hc
  refine ⟨b, c, hb, ?_, hc, ?_⟩
  · split at hok <;> cases hok
    exact hpass
  · simp only [hbytes, hpos, Bytes.slice?_drop hle, Nat.zero_add] at hok
    split at hok
    · rename_i s' hs
      cases hok
      exact hs
    · cases hok

/-! ### How far the decoder gets -/

namespace Window.Passes

variable {w'' : Window} {size size' : ℕ}

lemma refl (w : Window) : w.Passes 0 w := ⟨rfl, rfl⟩

lemma trans (h : w.Passes size w') (h' : w'.Passes size' w'') : w.Passes (size + size') w'' :=
  ⟨h'.bytes_eq.trans h.bytes_eq, by rw [h'.position_eq, h.position_eq, Nat.add_assoc]⟩

end Window.Passes

/-- However a value of the type is decoded, its slot has been passed. -/
def PassesSlot (t : AbiType) : Prop :=
  ∀ w v w', value t w = .ok (v, w') → w.Passes t.slotSize w'

lemma value_of_isWord (h : t.isWord = true) (w : Window) :
    value t w = do let (b, w) ← w.word; return (Value.ofWord t b, w) := by
  cases t <;> first | rfl | cases h

lemma isWord_of_isScalar (h : t.isScalar = true) : t.isWord = true := by
  cases t <;> first | rfl | cases h

/-- So many values of one type are a row. -/
lemma times_value (t : AbiType) (n : ℕ) (w : Window) :
    times (value t) n w = row (List.replicate n t) w := by
  induction n generalizing w with
  | zero => rfl
  | succ n ih => simp only [times, List.replicate_succ, row, ih]

lemma passes_row (hts : ∀ t ∈ ts, PassesSlot t) (h : row ts w = .ok (vs, w')) :
    w.Passes (AbiType.rowSize ts) w' := by
  induction ts generalizing w vs with
  | nil =>
    cases h
    exact .refl _
  | cons t ts ih =>
    simp only [row, except_bind_eq_ok_iff, Prod.exists] at h
    obtain ⟨v, w1, hv, vs', w2, hvs, hok⟩ := h
    cases hok
    exact (hts t (by simp) _ _ _ hv).trans (ih (fun u hu => hts u (by simp [hu])) hvs)

/-- Members out of line take one word, members in place the room that they take there. -/
lemma passes_grouped {dynamic : Bool} {size : ℕ}
    {members : Window → Except DecodeFault (List Value × Window)}
    (hmembers : ∀ w vs w', members w = .ok (vs, w') → w.Passes size w')
    (h : grouped dynamic w members = .ok (vs, w')) :
    w.Passes (if dynamic then wordSize else size) w' := by
  unfold grouped at h
  cases dynamic with
  | true =>
    simp only [if_true, except_bind_eq_ok_iff, Prod.exists] at h
    obtain ⟨inner, w1, hfollow, vs', inner', -, hok⟩ := h
    cases hok
    obtain ⟨_, -, hpass, -⟩ := follow_eq_ok hfollow
    exact hpass
  | false =>
    simp only [Bool.false_eq_true, if_false, except_bind_eq_ok_iff, Prod.exists] at h
    obtain ⟨inner, hhere, vs', inner', hvs, hok⟩ := h
    cases hok
    obtain ⟨-, -, hpos⟩ := enter_eq_ok hhere
    have hinner := (hmembers _ _ _ hvs).position_eq
    rw [hpos, Nat.zero_add] at hinner
    exact ⟨rfl, by rw [hinner, if_neg (by simp)]⟩

lemma passes_word {b : Bytes} (h : w.word = .ok (b, w')) : w.Passes wordSize w' := by
  obtain ⟨-, rfl⟩ := word_eq_ok.mp h
  exact ⟨rfl, rfl⟩

lemma passesSlot (t : AbiType) : PassesSlot t := by
  induction t using AbiType.induct with
  | scalar t ht =>
    intro w v w' h
    rw [value_of_isWord (isWord_of_isScalar ht)] at h
    simp only [except_bind_eq_ok_iff, Prod.exists] at h
    obtain ⟨b, w1, hb, hok⟩ := h
    cases hok
    rw [AbiType.slotSize_of_isScalar ht]
    exact passes_word hb
  | function =>
    intro w v w' h
    rw [value_of_isWord rfl] at h
    simp only [except_bind_eq_ok_iff, Prod.exists] at h
    obtain ⟨b, w1, hb, hok⟩ := h
    cases hok
    exact passes_word hb
  | payload t ht =>
    intro w v w' h
    have hpayload : ∃ s, payload w = .ok (s, w') := by
      cases t with
      | bytes | string =>
        simp only [value, except_bind_eq_ok_iff, Prod.exists] at h
        obtain ⟨s, w1, hs, hok⟩ := h
        cases hok
        exact ⟨s, hs⟩
      | _ => cases ht
    obtain ⟨s, hs⟩ := hpayload
    obtain ⟨_, _, -, hpass, -⟩ := payload_eq_ok hs
    rw [AbiType.slotSize_of_isDynamic (AbiType.isPayload_isDynamic ht)]
    exact hpass
  | array t ih =>
    intro w v w' h
    simp only [value, except_bind_eq_ok_iff, Prod.exists] at h
    obtain ⟨inner, w1, hfollow, n, inner', -, hok⟩ := h
    obtain ⟨_, -, hpass, -⟩ := follow_eq_ok hfollow
    have hw : w' = w1 := by
      split at hok
      · cases hok
        rfl
      · obtain ⟨items, -, hok⟩ := except_bind_eq_ok_iff.mp hok
        split at hok
        · cases hok
        · split at hok
          · cases hok
          · obtain ⟨_, -, hok⟩ := except_bind_eq_ok_iff.mp hok
            cases hok
            rfl
    rw [hw, AbiType.slotSize_of_isDynamic rfl]
    exact hpass
  | row t ts hm ih =>
    intro w v w' h
    have hgrouped : ∃ vs members, grouped t.isDynamic w members = .ok (vs, w') ∧
        ∀ w vs w', members w = .ok (vs, w') → w.Passes (AbiType.rowSize ts) w' := by
      cases t with
      | fixedArray t n =>
        cases hm
        simp only [value, except_bind_eq_ok_iff, Prod.exists] at h
        obtain ⟨vs, w1, hvs, hok⟩ := h
        cases hok
        exact ⟨vs, _, hvs, fun w vs w' h => passes_row ih (times_value t n w ▸ h)⟩
      | tuple ts =>
        cases hm
        simp only [value, except_bind_eq_ok_iff, Prod.exists] at h
        obtain ⟨vs, w1, hvs, hok⟩ := h
        cases hok
        exact ⟨vs, _, hvs, fun w vs w' h => passes_row ih h⟩
      | _ => cases hm
    obtain ⟨vs, members, hvs, hmembers⟩ := hgrouped
    have hpass := passes_grouped hmembers hvs
    cases hd : t.isDynamic with
    | false =>
      rw [AbiType.slotSize_of_members? hm hd]
      simpa [hd] using hpass
    | true =>
      rw [AbiType.slotSize_of_isDynamic hd]
      simpa [hd] using hpass

end Decoder

/-! ### Decoding and walking -/

/-- What selected bytes mean as a value of a type, by themselves. -/
def ofSelected (t : AbiType) (s : Bytes) : Value :=
  match t with
  | .bytes => .bytes s
  | .string => .string (Utf8.decodeLossy s)
  | t => ofWord t s

/-- What the low bytes of a word spell. -/
def low (w : Bytes) : Nat := Bytes.toNat (w.drop 24)

/-- The bytes `s` are what a value of a word or a payload is taken from whose slot is at `pos`: the
word there, or what the pointer there leads to. Of pointers and lengths the low bytes count. -/
inductive StandsAt (data : Bytes) (pos : Nat) (t : AbiType) (s : Bytes) : Prop
  | word : t.isScalar = true → data.slice? pos wordSize = some s → StandsAt data pos t s
  | payload {p c : Bytes} : t.isPayload = true → data.slice? pos wordSize = some p →
    data.slice? (low p) wordSize = some c → data.slice? (low p + wordSize) (low c) = some s →
    StandsAt data pos t s

/-- The words and payloads of a row of values are taken from the data, each at the place of its
slot. -/
def Reads (ts : List AbiType) (data : Bytes) (vs : List Value) : Prop :=
  ∀ k t, ts[k]? = some t → t.isScalar = true ∨ t.isPayload = true →
    ∃ s, StandsAt data (AbiType.rowSize (ts.take k)) t s ∧ vs[k]? = some (ofSelected t s)

variable {b : Buffer} {w w' : Decoder.Window} {t : AbiType} {ts : List AbiType} {v : Value}
  {vs : List Value} {n : Node} {ns : List Node}

lemma ofSelected_of_isWord (h : t.isWord = true) (s : Bytes) : ofSelected t s = ofWord t s := by
  cases t <;> first | rfl | cases h

open Decoder Layout

/-! ### The decoder -/

lemma standsAt_of_word (ht : t.isScalar = true) (h : value t w = .ok (v, w')) :
    ∃ s, StandsAt w.bytes w.position t s ∧ v = ofSelected t s := by
  rw [value_of_isWord (isWord_of_isScalar ht)] at h
  simp only [except_bind_eq_ok_iff, Prod.exists, word_eq_ok] at h
  obtain ⟨s, _, ⟨hs, rfl⟩, hok⟩ := h
  cases hok
  exact ⟨s, .word ht hs, (ofSelected_of_isWord (isWord_of_isScalar ht) s).symm⟩

lemma standsAt_of_payload (ht : t.isPayload = true) (h : value t w = .ok (v, w')) :
    ∃ s, StandsAt w.bytes w.position t s ∧ v = ofSelected t s := by
  have hvalue : ∃ s, Decoder.payload w = .ok (s, w') ∧ v = ofSelected t s := by
    cases t with
    | bytes | string =>
      simp only [value, except_bind_eq_ok_iff, Prod.exists] at h
      obtain ⟨s, w1, hs, hok⟩ := h
      cases hok
      exact ⟨s, hs, rfl⟩
    | _ => cases ht
  obtain ⟨s, hpayload, rfl⟩ := hvalue
  obtain ⟨p, c, hp, -, hc, hs⟩ := payload_eq_ok hpayload
  exact ⟨s, .payload ht hp hc hs, rfl⟩

/-- The slots of a row follow each other from the position of the window. -/
lemma standsAt_of_row (h : row ts w = .ok (vs, w')) {k : ℕ} (ht : ts[k]? = some t)
    (hshape : t.isScalar = true ∨ t.isPayload = true) :
    ∃ s, StandsAt w.bytes (w.position + AbiType.rowSize (ts.take k)) t s ∧
      vs[k]? = some (ofSelected t s) := by
  induction ts generalizing w vs k with
  | nil => cases ht
  | cons u ts ih =>
    simp only [row, except_bind_eq_ok_iff, Prod.exists] at h
    obtain ⟨v, w1, hv, vs', w2, hvs, hok⟩ := h
    cases hok
    cases k with
    | zero =>
      cases ht
      have hread : ∃ s, StandsAt w.bytes w.position t s ∧ v = ofSelected t s := by
        rcases hshape with hu | hu
        · exact standsAt_of_word hu hv
        · exact standsAt_of_payload hu hv
      obtain ⟨s, hs, rfl⟩ := hread
      exact ⟨s, hs, rfl⟩
    | succ k =>
      obtain ⟨hbytes, hpos⟩ := passesSlot u _ _ _ hv
      obtain ⟨s, hs, hvalue⟩ := ih hvs ht
      rw [hbytes, hpos, Nat.add_assoc, ← AbiType.rowSize_cons] at hs
      exact ⟨s, hs, hvalue⟩

/-- Types that take no room are neither words nor payloads. -/
lemma not_isEmpty_of_mem (hts : AbiType.allEmpty ts = true) (ht : t ∈ ts) :
    t.isScalar = false ∧ t.isPayload = false := by
  have hempty : t.isEmpty = true := by
    induction ts with
    | nil => cases ht
    | cons u ts ih =>
      simp only [AbiType.allEmpty, Bool.and_eq_true] at hts
      rcases List.mem_cons.mp ht with rfl | ht
      · exact hts.1
      · exact ih hts.2 ht
  cases t <;> first | exact ⟨rfl, rfl⟩ | cases hempty

/-- **The decoder takes words and payloads from their places.** -/
theorem decodeRow_reads {data : Bytes} (hdecode : decodeRow ts data = .ok vs) :
    Reads ts data vs := by
  intro k t ht hshape
  have hfull : AbiType.allEmpty ts = false := by
    by_contra hempty
    obtain ⟨hscalar, hpayload⟩ :=
      not_isEmpty_of_mem (by simpa using hempty) (List.mem_of_getElem? ht)
    simp [hscalar, hpayload] at hshape
  have hvalues : ∃ w', row ts { bytes := data } = .ok (vs, w') := by
    unfold decodeRow at hdecode
    rw [hfull] at hdecode
    simp only [Bool.false_eq_true, if_false] at hdecode
    split at hdecode
    · cases hdecode
    · split at hdecode
      · cases hdecode
      · simp only [except_bind_eq_ok_iff, Prod.exists] at hdecode
        obtain ⟨vs', w', hvs, hok⟩ := hdecode
        cases hok
        exact ⟨w', hvs⟩
  obtain ⟨w', hvs⟩ := hvalues
  obtain ⟨s, hs, hvalue⟩ := standsAt_of_row hvs ht hshape
  rw [Nat.zero_add] at hs
  exact ⟨s, hs, hvalue⟩

/-! ### The walk -/

/-- What stands at a slot is what the node of the slot selects. Pointers of a row count from the
start of the buffer, and the walk reads no number that is more than its low bytes. -/
lemma slice?_of_standsAt {pos : ℕ} {s : Bytes} (hslot : Slot b 0 t pos n)
    (h : StandsAt b.bytes pos t s) : n.slice? b.bytes = some s := by
  cases h with
  | word ht hs =>
    obtain ⟨s', hs', rfl⟩ := (slot_scalar_iff ht).mp hslot
    exact hs
  | @payload p c ht hp hc hs =>
    obtain ⟨ahead, hahead, -, htail⟩ :=
      (slot_dynamic_iff (AbiType.isPayload_isDynamic ht)).mp hslot
    obtain ⟨s', hlength, -, hs', rfl⟩ := (tail_payload_iff ht).mp htail
    rw [Nat.zero_add] at hlength hs'
    rw [low, hahead.toNat_low hp] at hc hs
    rw [low, hlength.toNat_low hc, hs'] at hs
    cases hs
    simpa [Node.ofPayload, Node.slice?, Node.span?, Span.slice?] using hs'

/-- **Decoder and walk agree.** Whatever row of types is walked through, each word and each payload
of values that are read from it is taken from the bytes that its node selects. -/
theorem Reads.selected {data : Bytes} {limits : Limits} (h : Reads ts data vs)
    (hwalk : (locate { bytes := data, limits } ts).1 = .ok ns) {k : ℕ} (ht : ts[k]? = some t)
    (hshape : t.isScalar = true ∨ t.isPayload = true) :
    ∃ n s, ns[k]? = some n ∧ n.slice? data = some s ∧ vs[k]? = some (ofSelected t s) := by
  obtain ⟨n, hn, hslot⟩ := (locate_fst_eq_ok_iff.mp hwalk).1.slot_at ht
  obtain ⟨s, hs, hvalue⟩ := h k t ht hshape
  rw [Nat.zero_add] at hslot
  exact ⟨n, s, hn, slice?_of_standsAt hslot hs, hvalue⟩

end Value

end AbiSpan
