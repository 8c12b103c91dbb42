import AbiSpan.Layout
import AbiSpan.Proofs.SlotSize
import AbiSpan.Proofs.Tree

/-!
When values are laid out in a buffer, as a relation and without a reader.

`Row` lays a row of types over slots that follow one another, with pointers counted from `base`;
`Slot` lays one type over the slot at `pos`; `Tail` lays a dynamic type over what starts at
`start`. A static value stands in its slot, a dynamic one where its slot points to. The tree
that a relation speaks of is determined by the buffer, and nothing is asked of where the tails
lie: they may overlap, be out of order, and stand before the slots that point to them.
-/

namespace AbiSpan

/-- The word at `pos` spells the number `n`, which is small enough for an offset. -/
def Bytes.IndexAt (b : Bytes) (pos n : Nat) : Prop :=
  ∃ w, b.slice? pos wordSize = some w ∧ w.toNat = n ∧ n < offsetBound

lemma Bytes.IndexAt.unique {b : Bytes} {pos n m : ℕ} (hn : b.IndexAt pos n)
    (hm : b.IndexAt pos m) : n = m := by
  obtain ⟨w, hw, rfl, -⟩ := hn
  obtain ⟨w', hw', rfl, -⟩ := hm
  rw [hw] at hw'
  cases hw'
  rfl

lemma Bytes.IndexAt.le_length {b : Bytes} {pos n : ℕ} (h : b.IndexAt pos n) :
    pos + wordSize ≤ b.length := by
  obtain ⟨w, hw, -⟩ := h
  exact (slice?_eq_some_iff.mp hw).1

/-- There is room for a payload of `size` bytes at `pos`, with its padding unless that may be
missing. -/
def Buffer.HasRoom (b : Buffer) (pos size : Nat) : Prop :=
  pos + (if b.limits.allowLoose then size else padded size) ≤ b.size

lemma Buffer.HasRoom.le_size {b : Buffer} {pos size : ℕ} (h : b.HasRoom pos size) :
    pos + size ≤ b.size := by
  have := le_padded size
  unfold HasRoom at h
  split at h <;> omega

/-- The node of a value of one word. -/
def Node.ofWord (type : AbiType) (offset : Nat) (word : Bytes) : Node :=
  { type, offset, size := some wordSize, outOfLine := false, value := some word, children := [] }

/-- The node of a byte string or a text. -/
def Node.ofPayload (type : AbiType) (offset : Nat) (payload : Bytes) : Node :=
  { type, offset, size := some payload.length, outOfLine := true, value := some payload,
    children := [] }

namespace Layout

mutual

/-- Values of the types `ts` in slots from `pos` on. -/
inductive Row (b : Buffer) : (base : Nat) → (ts : List AbiType) → (pos : Nat) → List Node → Prop
  | nil {base pos : Nat} : Row b base [] pos []
  | cons {base pos : Nat} {t : AbiType} {ts : List AbiType} {n : Node} {ns : List Node} :
    Slot b base t pos n → Row b base ts (pos + t.slotSize) ns →
      Row b base (t :: ts) pos (n :: ns)

/-- A value of the type `t` in the slot at `pos`, or behind the pointer there. -/
inductive Slot (b : Buffer) : (base : Nat) → (t : AbiType) → (pos : Nat) → Node → Prop
  | word {base pos : Nat} {t : AbiType} {w : Bytes} : t.isScalar = true →
    b.bytes.slice? pos wordSize = some w → Slot b base t pos (.ofWord t pos w)
  | row {base pos : Nat} {t : AbiType} {ts : List AbiType} {ns : List Node} :
    t.isDynamic = false → t.members? = some ts → Row b pos ts pos ns →
      Slot b base t pos (compound t pos false ns)
  | pointer {base pos ahead : Nat} {t : AbiType} {n : Node} : t.isDynamic = true →
    b.bytes.IndexAt pos ahead → base + ahead ≤ b.size → Tail b t (base + ahead) n →
      Slot b base t pos n

/-- A value of the type `t`, stored out of line, that starts at `start`. -/
inductive Tail (b : Buffer) : (t : AbiType) → (start : Nat) → Node → Prop
  | payload {start : Nat} {t : AbiType} {s : Bytes} : t.isPayload = true →
    b.bytes.IndexAt start s.length → b.HasRoom (start + wordSize) s.length →
      b.bytes.slice? (start + wordSize) s.length = some s →
      Tail b t start (.ofPayload t (start + wordSize) s)
  | array {start count : Nat} {t : AbiType} {ns : List Node} : b.bytes.IndexAt start count →
    Row b (start + wordSize) (List.replicate count t) (start + wordSize) ns →
      Tail b (.array t) start (compound (.array t) start true ns)
  | row {start : Nat} {t : AbiType} {ts : List AbiType} {ns : List Node} :
    t.members? = some ts → Row b start ts start ns → Tail b t start (compound t start true ns)

end

variable {b : Buffer} {base base' pos start : ℕ} {t : AbiType} {ts : List AbiType} {n : Node}
  {ns : List Node}

lemma leaves_compound {outOfLine : Bool} :
    (compound t pos outOfLine ns).leaves = Node.leavesOf ns := by
  cases ns <;> rfl

/-! ### The relations taken apart -/

@[simp] lemma row_nil_iff : Row b base [] pos ns ↔ ns = [] :=
  ⟨fun h => by cases h; rfl, fun h => h ▸ .nil⟩

lemma row_cons_iff : Row b base (t :: ts) pos ns ↔
    ∃ n ns', ns = n :: ns' ∧ Slot b base t pos n ∧ Row b base ts (pos + t.slotSize) ns' := by
  constructor
  · intro h
    rcases h with _ | ⟨h, hs⟩
    exact ⟨_, _, rfl, h, hs⟩
  · intro h
    rcases h with ⟨n, ns', rfl, h, hs⟩
    exact .cons h hs

lemma Row.length_eq (h : Row b base ts pos ns) : ns.length = ts.length := by
  induction ts generalizing pos ns with
  | nil => simp [row_nil_iff.mp h]
  | cons t ts ih =>
    obtain ⟨n, ns', rfl, -, hs⟩ := row_cons_iff.mp h
    simp [ih hs]

/-- Every node of a row is in a slot of its own. -/
lemma Row.exists_slot (h : Row b base ts pos ns) {c : Node} (hc : c ∈ ns) :
    ∃ u ∈ ts, ∃ q, Slot b base u q c := by
  induction ts generalizing pos ns with
  | nil => simp [row_nil_iff.mp h] at hc
  | cons t ts ih =>
    obtain ⟨n, ns', rfl, h1, hs⟩ := row_cons_iff.mp h
    rcases List.mem_cons.mp hc with rfl | hc'
    · exact ⟨t, by simp, pos, h1⟩
    · obtain ⟨u, hu, q, hq⟩ := ih hs hc'
      exact ⟨u, by simp [hu], q, hq⟩

lemma Tail.type_eq (h : Tail b t start n) : n.type = t := by
  cases h <;> rfl

lemma Slot.type_eq (h : Slot b base t pos n) : n.type = t := by
  cases h with
  | word | row => rfl
  | pointer _ _ _ htail => exact htail.type_eq

lemma Row.types_eq (h : Row b base ts pos ns) : ns.map (·.type) = ts := by
  induction ts generalizing pos ns with
  | nil => simp [row_nil_iff.mp h]
  | cons t ts ih =>
    obtain ⟨n, ns', rfl, hn, hns⟩ := row_cons_iff.mp h
    rw [List.map_cons, hn.type_eq, ih hns]

/-- The slot at a place of a row begins behind the slots before it. -/
lemma Row.slot_at (h : Row b base ts pos ns) {i : ℕ} (hi : ts[i]? = some t) :
    ∃ n, ns[i]? = some n ∧ Slot b base t (pos + AbiType.rowSize (ts.take i)) n := by
  induction ts generalizing pos ns i with
  | nil => cases hi
  | cons u ts ih =>
    obtain ⟨n, ns', rfl, hn, hns⟩ := row_cons_iff.mp h
    cases i with
    | zero =>
      cases hi
      exact ⟨n, rfl, hn⟩
    | succ i =>
      obtain ⟨m, hm, hslot⟩ := ih hns hi
      refine ⟨m, hm, ?_⟩
      rwa [Nat.add_assoc] at hslot

lemma slot_scalar_iff (ht : t.isScalar = true) :
    Slot b base t pos n ↔ ∃ w, b.bytes.slice? pos wordSize = some w ∧ n = .ofWord t pos w := by
  constructor
  · intro h
    rcases h with ⟨-, hw⟩ | ⟨-, hm, -⟩ | ⟨hd, -, -, -⟩
    · exact ⟨_, hw, rfl⟩
    · rw [AbiType.members?_of_isScalar ht] at hm
      cases hm
    · rw [AbiType.isScalar_not_isDynamic ht] at hd
      cases hd
  · intro h
    rcases h with ⟨w, hw, rfl⟩
    exact .word ht hw

lemma slot_static_row_iff (hd : t.isDynamic = false) (hm : t.members? = some ts) :
    Slot b base t pos n ↔ ∃ ns, Row b pos ts pos ns ∧ n = compound t pos false ns := by
  constructor
  · intro h
    rcases h with ⟨hs, -⟩ | ⟨-, hm', hr⟩ | ⟨hd', -, -, -⟩
    · rw [AbiType.isScalar_of_members? hm] at hs
      cases hs
    · rw [hm] at hm'
      cases hm'
      exact ⟨_, hr, rfl⟩
    · rw [hd] at hd'
      cases hd'
  · intro h
    rcases h with ⟨ns, hr, rfl⟩
    exact .row hd hm hr

lemma slot_dynamic_iff (hd : t.isDynamic = true) :
    Slot b base t pos n ↔
      ∃ ahead, b.bytes.IndexAt pos ahead ∧ base + ahead ≤ b.size ∧ Tail b t (base + ahead) n := by
  constructor
  · intro h
    rcases h with ⟨hs, -⟩ | ⟨hd', -, -⟩ | ⟨-, hi, hle, ht⟩
    · rw [AbiType.isScalar_not_isDynamic hs] at hd
      cases hd
    · rw [hd] at hd'
      cases hd'
    · exact ⟨_, hi, hle, ht⟩
  · intro h
    rcases h with ⟨ahead, hi, hle, ht⟩
    exact .pointer hd hi hle ht

/-- No value of the function type is laid out anywhere. -/
lemma not_slot_function : ¬ Slot b base .function pos n := by
  intro h
  rcases h with ⟨hs, -⟩ | ⟨-, hm, -⟩ | ⟨hd, -, -, -⟩
  · cases hs
  · cases hm
  · cases hd

lemma tail_payload_iff (ht : t.isPayload = true) :
    Tail b t start n ↔ ∃ s : Bytes, b.bytes.IndexAt start s.length ∧
      b.HasRoom (start + wordSize) s.length ∧
      b.bytes.slice? (start + wordSize) s.length = some s ∧
      n = .ofPayload t (start + wordSize) s := by
  constructor
  · intro h
    rcases h with ⟨-, hi, hf, hs⟩ | ⟨-, -⟩ | ⟨hm, -⟩
    · exact ⟨_, hi, hf, hs, rfl⟩
    · cases ht
    · rw [AbiType.members?_of_isPayload ht] at hm
      cases hm
  · intro h
    rcases h with ⟨s, hi, hf, hs, rfl⟩
    exact .payload ht hi hf hs

lemma tail_array_iff :
    Tail b (.array t) start n ↔ ∃ ns, b.bytes.IndexAt start ns.length ∧
      Row b (start + wordSize) (List.replicate ns.length t) (start + wordSize) ns ∧
      n = compound (.array t) start true ns := by
  constructor
  · intro h
    rcases h with ⟨hp, -⟩ | ⟨hi, hr⟩ | ⟨hm, -⟩
    · cases hp
    · have hlen := hr.length_eq
      rw [List.length_replicate] at hlen
      subst hlen
      exact ⟨_, hi, hr, rfl⟩
    · cases hm
  · intro h
    rcases h with ⟨ns, hi, hr, rfl⟩
    exact .array hi hr

lemma tail_row_iff (hm : t.members? = some ts) :
    Tail b t start n ↔ ∃ ns, Row b start ts start ns ∧ n = compound t start true ns := by
  constructor
  · intro h
    rcases h with ⟨hp, -⟩ | ⟨-, -⟩ | ⟨hm', hr⟩
    · rw [AbiType.isPayload_of_members? hm] at hp
      cases hp
    · cases hm
    · rw [hm] at hm'
      cases hm'
      exact ⟨_, hr, rfl⟩
  · intro h
    rcases h with ⟨ns, hr, rfl⟩
    exact .row hm hr

/-- A static value does not care where pointers count from. -/
lemma Slot.of_static (hd : t.isDynamic = false) (h : Slot b base t pos n) :
    Slot b base' t pos n := by
  rcases h with ⟨hs, hw⟩ | ⟨hd', hm, hr⟩ | ⟨hd', -, -, -⟩
  · exact .word hs hw
  · exact .row hd' hm hr
  · rw [hd] at hd'
    cases hd'

lemma Row.of_static (hd : ∀ t ∈ ts, t.isDynamic = false) (h : Row b base ts pos ns) :
    Row b base' ts pos ns := by
  induction ts generalizing pos ns with
  | nil => exact (row_nil_iff.mp h) ▸ .nil
  | cons t ts ih =>
    obtain ⟨n, ns', rfl, h1, hs⟩ := row_cons_iff.mp h
    exact .cons (h1.of_static (hd t (by simp))) (ih (fun u hu => hd u (by simp [hu])) hs)

/-! ### Slots lie inside the buffer -/

lemma Row.le_size_of_slots (hslot : ∀ t ∈ ts, ∀ {base pos n}, Slot b base t pos n →
    pos ≤ b.size → pos + t.slotSize ≤ b.size) (h : Row b base ts pos ns) (hpos : pos ≤ b.size) :
    pos + AbiType.rowSize ts ≤ b.size := by
  induction ts generalizing pos ns with
  | nil => simpa using hpos
  | cons t ts ih =>
    obtain ⟨n, ns', rfl, h1, hs⟩ := row_cons_iff.mp h
    have := ih (fun u hu => hslot u (by simp [hu])) hs (hslot t (by simp) h1 hpos)
    rw [AbiType.rowSize_cons]
    omega

lemma Slot.le_size (h : Slot b base t pos n) (hpos : pos ≤ b.size) :
    pos + t.slotSize ≤ b.size := by
  induction t using AbiType.induct generalizing base pos n with
  | scalar t ht =>
    obtain ⟨w, hw, rfl⟩ := (slot_scalar_iff ht).mp h
    rw [AbiType.slotSize_of_isScalar ht]
    exact (Bytes.slice?_eq_some_iff.mp hw).1
  | function => exact (not_slot_function h).elim
  | payload t ht =>
    obtain ⟨_, hi, -⟩ := (slot_dynamic_iff (AbiType.isPayload_isDynamic ht)).mp h
    rw [AbiType.slotSize_of_isDynamic (AbiType.isPayload_isDynamic ht)]
    exact hi.le_length
  | array t ih =>
    obtain ⟨_, hi, -⟩ := (slot_dynamic_iff rfl).mp h
    rw [AbiType.slotSize_of_isDynamic rfl]
    exact hi.le_length
  | row t ts hm ih =>
    cases hd : t.isDynamic with
    | false =>
      obtain ⟨ns, hr, -⟩ := (slot_static_row_iff hd hm).mp h
      rw [AbiType.slotSize_of_members? hm hd]
      exact hr.le_size_of_slots (fun u hu => ih u hu) hpos
    | true =>
      obtain ⟨_, hi, -⟩ := (slot_dynamic_iff hd).mp h
      rw [AbiType.slotSize_of_isDynamic hd]
      exact hi.le_length

lemma Row.le_size (h : Row b base ts pos ns) (hpos : pos ≤ b.size) :
    pos + AbiType.rowSize ts ≤ b.size :=
  h.le_size_of_slots (fun _ _ => Slot.le_size) hpos

/-! ### Induction over a layout -/

lemma exists_left_of_mem {α β : Type} {P : α → β → Prop} {as : List α} {bs : List β}
    (h : List.Forall₂ P as bs) {b : β} (hb : b ∈ bs) : ∃ a ∈ as, P a b := by
  induction h with
  | nil => cases hb
  | cons ha _ ih =>
    rcases List.mem_cons.mp hb with rfl | hb'
    · exact ⟨_, by simp, ha⟩
    · obtain ⟨a, hmem, ha'⟩ := ih hb'
      exact ⟨a, by simp [hmem], ha'⟩

lemma Row.forall₂_of_slots {P : AbiType → Node → Prop}
    (hslot : ∀ t ∈ ts, ∀ {base pos n}, Slot b base t pos n → pos ≤ b.size → P t n)
    (h : Row b base ts pos ns) (hpos : pos ≤ b.size) : List.Forall₂ P ts ns := by
  induction ts generalizing pos ns with
  | nil => simp [row_nil_iff.mp h]
  | cons t ts ih =>
    obtain ⟨n, ns', rfl, h1, hs⟩ := row_cons_iff.mp h
    exact .cons (hslot t (by simp) h1 hpos)
      (ih (fun u hu => hslot u (by simp [hu])) hs (h1.le_size hpos))

/-- What holds of every value by itself, if it holds of the values inside, holds of whatever is
laid out. -/
theorem Slot.induct {P : AbiType → Node → Prop}
    (word : ∀ t pos w, t.isScalar = true → b.bytes.slice? pos wordSize = some w →
      P t (.ofWord t pos w))
    (payload : ∀ t start s, t.isPayload = true →
      Tail b t start (.ofPayload t (start + wordSize) s) →
      P t (.ofPayload t (start + wordSize) s))
    (array : ∀ t start ns, Tail b (.array t) start (compound (.array t) start true ns) →
      List.Forall₂ P (List.replicate ns.length t) ns →
      P (.array t) (compound (.array t) start true ns))
    (row : ∀ t ts pos ns, t.members? = some ts → pos ≤ b.size → Row b pos ts pos ns →
      List.Forall₂ P ts ns → P t (compound t pos t.isDynamic ns))
    (h : Slot b base t pos n) (hpos : pos ≤ b.size) : P t n := by
  induction t using AbiType.induct generalizing base pos n with
  | scalar t ht =>
    obtain ⟨w, hw, rfl⟩ := (slot_scalar_iff ht).mp h
    exact word _ _ _ ht hw
  | function => exact (not_slot_function h).elim
  | payload t ht =>
    obtain ⟨ahead, -, -, htail⟩ := (slot_dynamic_iff (AbiType.isPayload_isDynamic ht)).mp h
    obtain ⟨s, -, -, -, rfl⟩ := (tail_payload_iff ht).mp htail
    exact payload _ _ _ ht htail
  | array t ih =>
    obtain ⟨ahead, -, -, htail⟩ := (slot_dynamic_iff rfl).mp h
    obtain ⟨ns, hi, hr, rfl⟩ := tail_array_iff.mp htail
    refine array _ _ _ htail (hr.forall₂_of_slots (fun u hu _ _ _ hs hle => ?_) hi.le_length)
    rw [List.eq_of_mem_replicate hu] at hs ⊢
    exact ih hs hle
  | row t ts hm ih =>
    cases hd : t.isDynamic with
    | false =>
      obtain ⟨ns, hr, rfl⟩ := (slot_static_row_iff hd hm).mp h
      rw [← hd]
      exact row _ _ _ _ hm hpos hr (hr.forall₂_of_slots (fun u hu _ _ _ => ih u hu) hpos)
    | true =>
      obtain ⟨ahead, -, hle, htail⟩ := (slot_dynamic_iff hd).mp h
      obtain ⟨ns, hr, rfl⟩ := (tail_row_iff hm).mp htail
      rw [← hd]
      exact row _ _ _ _ hm hle hr (hr.forall₂_of_slots (fun u hu _ _ _ => ih u hu) hle)

end Layout

/-! ### Layouts in other buffers -/

/-- What can be read in `b` can be read in `b'`, at the same places. -/
structure Buffer.ReadsIn (b b' : Buffer) : Prop where
  slice : ∀ {pos size : Nat} {s : Bytes},
    b.bytes.slice? pos size = some s → b'.bytes.slice? pos size = some s
  room : ∀ {pos size : Nat}, b.HasRoom pos size → b'.HasRoom pos size

namespace Buffer.ReadsIn

variable {b b' : Buffer} {pos n : ℕ}

lemma size_le (h : b.ReadsIn b') : b.size ≤ b'.size := by
  have hall : b.bytes.slice? 0 b.size = some b.bytes := by
    simp [Bytes.slice?_eq_some_iff, Buffer.size]
  have hle := (Bytes.slice?_eq_some_iff.mp (h.slice hall)).1
  rwa [Nat.zero_add] at hle

lemma indexAt (h : b.ReadsIn b') (hi : b.bytes.IndexAt pos n) : b'.bytes.IndexAt pos n := by
  obtain ⟨w, hw, hn, hlt⟩ := hi
  exact ⟨w, h.slice hw, hn, hlt⟩

end Buffer.ReadsIn

namespace Layout

variable {b b' : Buffer}

mutual

theorem Row.readsIn (h : b.ReadsIn b') :
    ∀ {base : ℕ} {ts : List AbiType} {pos : ℕ} {ns : List Node},
      Row b base ts pos ns → Row b' base ts pos ns
  | _, _, _, _, .nil => .nil
  | _, _, _, _, .cons hn hns => .cons (hn.readsIn h) (hns.readsIn h)

theorem Slot.readsIn (h : b.ReadsIn b') :
    ∀ {base : ℕ} {t : AbiType} {pos : ℕ} {n : Node}, Slot b base t pos n → Slot b' base t pos n
  | _, _, _, _, .word ht hw => .word ht (h.slice hw)
  | _, _, _, _, .row hd hm hr => .row hd hm (hr.readsIn h)
  | _, _, _, _, .pointer hd hi hle ht =>
    .pointer hd (h.indexAt hi) (hle.trans h.size_le) (ht.readsIn h)

theorem Tail.readsIn (h : b.ReadsIn b') :
    ∀ {t : AbiType} {start : ℕ} {n : Node}, Tail b t start n → Tail b' t start n
  | _, _, _, .payload ht hi hr hs => .payload ht (h.indexAt hi) (h.room hr) (h.slice hs)
  | _, _, _, .array hi hr => .array (h.indexAt hi) (hr.readsIn h)
  | _, _, _, .row hm hr => .row hm (hr.readsIn h)

end

end Layout

end AbiSpan
