import AbiSpan.Proofs.Layout.Laid

/-!
What a laid out tree costs, what is reported about it, and whether its numbers fit.

The walk refuses an array whose count is larger than the number of bytes behind it, and a number
that it would have to compute with and that is too large for an offset. `AllFit` says of a tree
that nothing in it is of that sort.
-/

namespace AbiSpan

namespace Node

/-- What the walk asks of a node besides that it is laid out in a buffer of so many bytes. -/
structure Fits (size : Nat) (n : Node) : Prop where
  /-- The length of a payload can be rounded up. -/
  payload : n.type.isPayload = true → padded (n.size.getD 0) < offsetBound
  /-- Each element of an array may have a byte behind the count. -/
  count : ∀ t, n.type = .array t → n.offset + wordSize + n.children.length ≤ size
  /-- Pointers can count from behind the count. -/
  elements : ∀ t, n.type = .array t → t.isDynamic = true → n.offset + wordSize < offsetBound

/-- The numbers of the whole tree fit. -/
def AllFit (size : Nat) (n : Node) : Prop := ∀ m ∈ n.preorder, m.Fits size

lemma allFit_iff {size : ℕ} {n : Node} :
    n.AllFit size ↔ n.Fits size ∧ ∀ c ∈ n.children, c.AllFit size := by
  unfold AllFit
  rw [preorder_eq]
  simp only [List.forall_mem_cons, mem_preorderOf]
  refine and_congr_right fun _ => ⟨?_, ?_⟩
  · intro hc c hcn m hm
    exact hc m ⟨c, hcn, hm⟩
  · rintro hc m ⟨c, hcn, hm⟩
    exact hc c hcn m hm

end Node

namespace Layout

open Node

variable {b : Buffer} {base pos start : ℕ} {t : AbiType} {ts : List AbiType} {n : Node}
  {ns : List Node}

lemma cost_ofWord (ht : t.isScalar = true) (w : Bytes) : (ofWord t pos w).cost = wordSize := by
  cases t <;> first | rfl | cases ht

lemma cost_ofPayload (ht : t.isPayload = true) (s : Bytes) :
    (ofPayload t pos s).cost = wordSize + (wordSize + s.length) := by
  cases t <;> first | (simp [cost, ownCost, ofPayload]; omega) | cases ht

lemma cost_array : (compound (.array t) pos true ns).cost = wordSize + (wordSize + costOf ns) := by
  simp [cost, ownCost, compound]
  omega

lemma cost_row (hm : t.members? = some ts) (outOfLine : Bool) :
    (compound t pos outOfLine ns).cost = (if outOfLine then wordSize else 0) + costOf ns := by
  cases t with
  | fixedArray _ _ => cases outOfLine <;> simp [cost, ownCost, compound, AbiType.isScalar]
  | tuple _ => cases outOfLine <;> simp [cost, ownCost, compound, AbiType.isScalar]
  | _ => cases hm

lemma trail_ofPayload (ht : t.isPayload = true) (s : Bytes) : (ofPayload t pos s).trail = [] := by
  cases t <;> first | rfl | cases ht

lemma trail_ofWord (ht : t.isScalar = true) (w : Bytes) : (ofWord t pos w).trail = [] := by
  cases t <;> first | rfl | cases ht

lemma trail_row (hm : t.members? = some ts) (outOfLine : Bool) :
    (compound t pos outOfLine ns).trail = trailOf true ns := by
  cases t <;> first | rfl | cases hm

lemma allFit_ofWord (ht : t.isScalar = true) (w : Bytes) (size : ℕ) :
    (ofWord t pos w).AllFit size := by
  rw [allFit_iff]
  refine ⟨⟨fun hp => ?_, fun u hu => ?_, fun u hu => ?_⟩, by simp [ofWord]⟩
  · rw [AbiType.isPayload_isScalar (t := t) hp] at ht
    cases ht
  · subst hu
    cases ht
  · subst hu
    cases ht

lemma allFit_ofPayload (ht : t.isPayload = true) (s : Bytes) (size : ℕ) :
    (ofPayload t pos s).AllFit size ↔ padded s.length < offsetBound := by
  rw [allFit_iff]
  refine ⟨fun h => h.1.payload ht, fun h => ⟨⟨fun _ => h, fun u hu => ?_, fun u hu => ?_⟩, ?_⟩⟩
  · subst hu
    cases ht
  · subst hu
    cases ht
  · simp [ofPayload]

lemma allFit_row (hm : t.members? = some ts) {outOfLine : Bool} {size : ℕ} :
    (compound t pos outOfLine ns).AllFit size ↔ ∀ c ∈ ns, c.AllFit size := by
  rw [allFit_iff]
  refine and_iff_right ⟨fun hp => ?_, fun u hu => ?_, fun u hu => ?_⟩
  · have hp' : t.isPayload = true := hp
    rw [AbiType.isPayload_of_members? hm] at hp'
    cases hp'
  · subst hu
    cases hm
  · subst hu
    cases hm

lemma allFit_array {size : ℕ} : (compound (.array t) pos true ns).AllFit size ↔
    pos + wordSize + ns.length ≤ size ∧ (t.isDynamic = true → pos + wordSize < offsetBound) ∧
      ∀ c ∈ ns, c.AllFit size := by
  rw [allFit_iff, ← and_assoc]
  refine and_congr_left' ⟨fun h => ⟨h.count t rfl, h.elements t rfl⟩, fun h => ⟨?_, ?_, ?_⟩⟩
  · exact fun hp => by cases hp
  · rintro _ ⟨⟩
    exact h.1
  · rintro _ ⟨⟩ hd
    exact h.2 hd

lemma Tail.wordSize_le_cost (h : Tail b t start n) : wordSize ≤ n.cost := by
  rcases h with ⟨hp, -⟩ | - | ⟨hm, -⟩
  · rw [cost_ofPayload hp]
    omega
  · rw [cost_array]
    omega
  · rw [cost_row hm, if_pos rfl]
    omega

/-- The node of a value out of line shows where the value starts. -/
lemma Tail.start_eq (h : Tail b t start n) : n.start = start := by
  rcases h with - | - | - <;> simp [ofPayload, compound, Node.start]

lemma Tail.slotTrail_eq (h : Tail b t start n) : n.slotTrail = .followed t start :: n.trail := by
  rcases h with - | - | - <;> simp [slotTrail, ofPayload, compound, Node.start]

/-- Nothing is reported about a static value. -/
lemma Slot.trail_of_static (hd : t.isDynamic = false) (h : Slot b base t pos n) :
    n.slotTrail = [] ∧ n.trail = [] := by
  induction t using AbiType.induct generalizing base pos n with
  | scalar t ht =>
    obtain ⟨w, -, rfl⟩ := (slot_scalar_iff ht).mp h
    rw [slotTrail, trail_ofWord ht]
    exact ⟨rfl, rfl⟩
  | function => exact (not_slot_function h).elim
  | payload t ht => rw [AbiType.isPayload_isDynamic ht] at hd; cases hd
  | array t ih => cases hd
  | row t ts hm ih =>
    obtain ⟨ns, hr, rfl⟩ := (slot_static_row_iff hd hm).mp h
    have hns : trailOf true ns = [] := trailOf_true_eq_nil fun c hc => by
      obtain ⟨u, hu, q, hs⟩ := hr.exists_slot hc
      exact (ih u hu (AbiType.isDynamic_of_mem_members? hm hd u hu) hs).1
    rw [slotTrail, trail_row hm, hns]
    exact ⟨rfl, rfl⟩

lemma Row.trailOf_of_static (hd : ∀ t ∈ ts, t.isDynamic = false) (h : Row b base ts pos ns) :
    trailOf true ns = [] ∧ trailOf false ns = [] := by
  refine ⟨trailOf_true_eq_nil fun c hc => ?_, trailOf_false_eq_nil fun c hc => ?_⟩
  · obtain ⟨u, hu, q, hs⟩ := h.exists_slot hc
    exact (hs.trail_of_static (hd u hu)).1
  · obtain ⟨u, hu, q, hs⟩ := h.exists_slot hc
    exact (hs.trail_of_static (hd u hu)).2

/-! ### Numbers that fit by themselves -/

/-- Where the elements of every array take room, the elements that are there are as many as the
count says, so the count fits; and no number is too large in a buffer that is not. -/
lemma Slot.allFit (hb : b.size < offsetBound) (ht : t.elemsTakeRoom = true)
    (h : Slot b base t pos n) (hpos : pos ≤ b.size) : n.AllFit b.size := by
  refine h.induct (P := fun t n => t.elemsTakeRoom = true → n.AllFit b.size)
    (fun t pos w hs _ _ => allFit_ofWord hs w _) ?_ ?_ ?_ hpos ht
  · intro t start s hp htail _
    obtain ⟨s', -, hroom, -, heq⟩ := (tail_payload_iff hp).mp htail
    obtain rfl : s = s' := Option.some.inj (congrArg Node.value heq)
    have hle := hroom.le_size
    have hpad := padded_lt s.length
    exact (allFit_ofPayload hp s _).mpr (by omega)
  · intro t start ns htail hns ht
    obtain ⟨ns', hi, hr, heq⟩ := tail_array_iff.mp htail
    obtain rfl : ns = ns' := congrArg Node.children heq
    simp only [AbiType.elemsTakeRoom, Bool.and_eq_true, bne_iff_ne] at ht
    have hle := hr.le_size hi.le_length
    rw [AbiType.rowSize_replicate] at hle
    have hlen : ns.length ≤ ns.length * t.slotSize := Nat.le_mul_of_pos_right _ (by omega)
    refine allFit_array.mpr ⟨by omega, fun _ => by omega, fun c hc => ?_⟩
    obtain ⟨u, hu, huc⟩ := exists_left_of_mem hns hc
    rw [List.eq_of_mem_replicate hu] at huc
    exact huc ht.2
  · intro t ts pos ns hm hle hr hns ht
    refine (allFit_row hm).mpr fun c hc => ?_
    obtain ⟨u, hu, huc⟩ := exists_left_of_mem hns hc
    exact huc (AbiType.elemsTakeRoom_of_mem_members? hm ht u hu)

lemma Row.allFit (hb : b.size < offsetBound) (hts : ∀ t ∈ ts, t.elemsTakeRoom = true)
    (h : Row b base ts pos ns) (hpos : pos ≤ b.size) : ∀ n ∈ ns, n.AllFit b.size := by
  have hns := h.forall₂_of_slots (P := fun _ n => n.AllFit b.size)
    (fun t ht _ _ _ hs hle => hs.allFit hb (hts t ht) hle) hpos
  intro n hn
  obtain ⟨_, -, hfit⟩ := exists_left_of_mem hns hn
  exact hfit

end Layout

end AbiSpan
