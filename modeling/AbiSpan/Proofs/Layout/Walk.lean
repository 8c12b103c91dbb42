import AbiSpan.Proofs.Layout.Account
import AbiSpan.Proofs.Reading

/-!
What the walk over a buffer does, exactly.

Each part of the walk ends with a tree if and only if the tree is laid out there, the numbers in
it fit, and the limits allow what the whole tree costs; and then it leaves the progress
moved past the slot, with the cost of the tree counted and its trail reported. `SlotExact`,
`TailExact` and `RowExact` say this of the three readers, and the proof goes by the shape of the
type.
-/

namespace AbiSpan.Layout

open Reading Node

variable {b : Buffer} {start : ℕ} {t : AbiType} {ts : List AbiType} {n : Node} {ns : List Node}
  {p p' : Progress}

/-! ### The readers, by the shape of the type -/

lemma inPlace_scalar (ht : t.isScalar = true) : inPlace b t = do
    let pos := (← view).position
    return ofWord t pos (← word b) := by
  cases t <;> first | rfl | cases ht

lemma times_inPlace (k : ℕ) : times k (inPlace b t) = inPlaceAll b (List.replicate k t) := by
  induction k with
  | zero => rfl
  | succ k ih => rw [times, ih, List.replicate_succ, inPlaceAll]

lemma times_slot (k : ℕ) :
    times k (slot b t (outOfLine b t)) = record b (List.replicate k t) := by
  induction k with
  | zero => rfl
  | succ k ih => rw [times, ih, List.replicate_succ, record]

lemma slot_static {x : Reading Node} (hd : t.isDynamic = false) : slot b t x = inPlace b t := by
  simp [slot, hd]

lemma slot_dynamic {x : Reading Node} (hd : t.isDynamic = true) :
    slot b t x = (do
      let v ← pointer b
      notify (.followed t v.base)
      within v x) := by
  simp [slot, hd]

lemma record_static (hd : ∀ t ∈ ts, t.isDynamic = false) : record b ts = inPlaceAll b ts := by
  induction ts with
  | nil => rfl
  | cons t ts ih =>
    rw [record, slot_static (hd t (by simp)), ih fun u hu => hd u (by simp [hu]), inPlaceAll]

lemma inPlace_row (hm : t.members? = some ts) (hd : t.isDynamic = false) : inPlace b t = do
    let pos := (← view).position
    return compound t pos false (← record b ts) := by
  rw [record_static (AbiType.isDynamic_of_mem_members? hm hd)]
  cases t with
  | fixedArray t k => cases hm; rw [inPlace, times_inPlace]
  | tuple ts => cases hm; rw [inPlace]
  | _ => cases hm

lemma outOfLine_payload (ht : t.isPayload = true) : outOfLine b t = payload b t := by
  cases t <;> first | rfl | cases ht

lemma outOfLine_row (hm : t.members? = some ts) : outOfLine b t = do
    let start := (← view).base
    return compound t start true (← record b ts) := by
  cases t with
  | fixedArray t k => cases hm; rw [outOfLine, times_slot]
  | tuple ts => cases hm; rw [outOfLine]
  | _ => cases hm

/-! ### Exact readers -/

/-- What the reader of a slot does. -/
def SlotExact (b : Buffer) (t : AbiType) : Prop :=
  ∀ p n p', b.Allows p →
    (Ends (slot b t (outOfLine b t)) p n p' ↔
      Slot b p.view.base t p.view.position n ∧ n.AllFit b.size ∧
        p' = p.past t.slotSize n.cost n.slotTrail ∧ b.Allows p')

/-- What the reader of a dynamic value does. The pointer to it has been read before. -/
def TailExact (b : Buffer) (t : AbiType) : Prop :=
  ∀ p start n p', b.Allows p →
    (Ends (within { base := start } (outOfLine b t)) p n p' ↔
      Tail b t start n ∧ n.AllFit b.size ∧
        p' = p.past 0 (n.cost - wordSize) n.trail ∧ b.Allows p')

/-- What the reader of a row does. -/
def RowExact (b : Buffer) (ts : List AbiType) : Prop :=
  ∀ p ns p', b.Allows p →
    (Ends (record b ts) p ns p' ↔
      Row b p.view.base ts p.view.position ns ∧ (∀ n ∈ ns, n.AllFit b.size) ∧
        p' = p.past (AbiType.rowSize ts) (costOf ns) (trailOf true ns) ∧ b.Allows p')

lemma rowExact (h : ∀ t ∈ ts, SlotExact b t) : RowExact b ts := by
  intro p ns p' hp
  induction ts generalizing p ns with
  | nil =>
    simp only [record, ends_pure, row_nil_iff]
    refine ⟨?_, ?_⟩
    · intro h
      rcases h with ⟨rfl, rfl⟩
      exact ⟨rfl, by simp, by simp [hp.past_zero], hp⟩
    · intro h
      rcases h with ⟨rfl, -, rfl, -⟩
      exact ⟨rfl, by simp [hp.past_zero]⟩
  | cons t ts ih =>
    have hslot := h t (by simp)
    have hrow := fun p ns hp => ih (fun u hu => h u (by simp [hu])) p ns hp
    simp only [record, ends_bind, ends_pure]
    refine ⟨?_, ?_⟩
    · intro h
      rcases h with ⟨n, p1, h1, ns', p2, h2, rfl, rfl⟩
      obtain ⟨hs, hc, rfl, hp1⟩ := (hslot p n p1 hp).mp h1
      obtain ⟨hr, hcs, rfl, hp2⟩ := (hrow _ ns' hp1).mp h2
      rw [Progress.past_base, Progress.past_position] at hr
      exact ⟨.cons hs hr, by simpa using ⟨hc, hcs⟩, by simp, hp2⟩
    · intro h
      rcases h with ⟨hr, hcs, rfl, hp2⟩
      obtain ⟨n, ns', rfl, hs, hr'⟩ := row_cons_iff.mp hr
      simp only [List.forall_mem_cons] at hcs
      have hp1 : b.Allows (p.past t.slotSize n.cost n.slotTrail) :=
        hp2.of_past_le (by simp)
      refine ⟨n, _, (hslot p n _ hp).mpr ⟨hs, hcs.1, rfl, hp1⟩, ns', _,
        (hrow _ ns' hp1).mpr ⟨?_, hcs.2, ?_, hp2⟩, rfl, rfl⟩
      · rwa [Progress.past_base, Progress.past_position]
      · simp

/-- Behind its length a payload is read where there is room for it, if its length can be rounded
up. -/
lemma readEnd_payload {v : View} {size : ℕ} : (∃ stop, v.readEnd b size true = .ok stop) ↔
    b.HasRoom v.position size ∧ padded size < offsetBound := by
  have hle := le_padded size
  unfold View.readEnd Buffer.HasRoom
  by_cases hbound : offsetBound ≤ padded size
  · simp [hbound, Nat.not_lt.mpr hbound]
  · have hlt : padded size < offsetBound := by omega
    rw [if_neg hbound, and_iff_left hlt]
    by_cases hl : b.limits.allowLoose = true
    · simp only [hl, Bool.true_and, if_true, decide_eq_true_eq]
      refine ⟨fun h => ?_, fun h => ?_⟩
      · obtain ⟨stop, h⟩ := h
        split at h
        · omega
        · split at h
          · assumption
          · cases h
      · split
        · exact ⟨_, rfl⟩
        · exact ⟨_, rfl⟩
    · simp only [hl, Bool.false_and, Bool.false_eq_true, if_false]
      refine ⟨fun h => ?_, fun h => ⟨_, if_pos h⟩⟩
      obtain ⟨stop, h⟩ := h
      split at h
      · assumption
      · cases h

lemma payload_sound (h : Ends (payload b t) p n p') :
    ∃ s : Bytes, b.bytes.IndexAt p.view.position s.length ∧
      b.HasRoom (p.view.position + wordSize) s.length ∧ padded s.length < offsetBound ∧
      b.bytes.slice? (p.view.position + wordSize) s.length = some s ∧
      n = .ofPayload t (p.view.position + wordSize) s ∧
      ∃ size, p' = p.past size (wordSize + s.length) [] ∧ b.Allows p' := by
  simp only [payload, ends_bind, ends_index, ends_view, ends_bytes, ends_pure, and_assoc,
    exists_and_left, exists_eq_left', exists_eq_left] at h
  obtain ⟨size, hi, -, s, q, ⟨stop, hstop, rfl, rfl, hq⟩, rfl, rfl⟩ := h
  obtain ⟨hr, hlt⟩ := readEnd_payload.mp ⟨stop, hstop⟩
  simp only [Progress.past_position] at hr ⊢
  have hslice : b.bytes.slice? (p.view.position + wordSize) size =
      some ((b.bytes.drop (p.view.position + wordSize)).take size) :=
    Bytes.slice?_eq_some_iff.mpr ⟨hr.le_size, rfl⟩
  have hlen := Bytes.length_of_slice? hslice
  refine ⟨_, by rwa [hlen], by rwa [hlen], by rwa [hlen], by rwa [hlen],
    by rw [Node.ofPayload, hlen], wordSize + (stop - (p.view.position + wordSize)), ?_, hq⟩
  rw [Progress.past_past, hlen]
  rfl

lemma payload_complete {s : Bytes} (hi : b.bytes.IndexAt p.view.position s.length)
    (hr : b.HasRoom (p.view.position + wordSize) s.length) (hlt : padded s.length < offsetBound)
    (hs : b.bytes.slice? (p.view.position + wordSize) s.length = some s)
    (hp : b.Allows (p.past 0 (wordSize + s.length) [])) :
    ∃ size, Ends (payload b t) p (.ofPayload t (p.view.position + wordSize) s)
      (p.past size (wordSize + s.length) []) := by
  have hpos : (p.past wordSize wordSize []).view.position = p.view.position + wordSize := by simp
  obtain ⟨stop, hstop⟩ := readEnd_payload.mpr ⟨hpos ▸ hr, hlt⟩
  refine ⟨wordSize + (stop - (p.view.position + wordSize)), ?_⟩
  simp only [payload, ends_bind, ends_index, ends_view, ends_bytes, ends_pure, and_assoc,
    exists_and_left, exists_eq_left', exists_eq_left]
  refine ⟨s.length, hi, hp.of_past_le (by omega), s, _, ⟨stop, hstop, ?_, rfl, ?_⟩, ?_, ?_⟩
  · rw [hpos]
    exact (Bytes.slice?_eq_some_iff.mp hs).2.symm
  · rw [Progress.past_past]
    exact hp.of_past_le le_rfl
  · rw [hpos, Node.ofPayload]
  · rw [Progress.past_past, hpos]
    rfl

lemma tailExact_payload (ht : t.isPayload = true) : TailExact b t := by
  intro p start n p' hp
  rw [outOfLine_payload ht]
  simp only [ends_within, tail_payload_iff ht]
  refine ⟨?_, ?_⟩
  · intro h
    rcases h with ⟨q, h, rfl⟩
    obtain ⟨s, hi, hr, hlt, hs, rfl, size, rfl, hq⟩ := payload_sound h
    refine ⟨⟨s, hi, hr, hs, rfl⟩, (allFit_ofPayload ht s _).mpr hlt, ?_, hq⟩
    rw [cost_ofPayload ht, trail_ofPayload ht, Nat.add_sub_cancel_left]
    rfl
  · intro h
    rcases h with ⟨⟨s, hi, hr, hs, rfl⟩, hfit, rfl, hp'⟩
    rw [cost_ofPayload ht, trail_ofPayload ht, Nat.add_sub_cancel_left] at hp' ⊢
    obtain ⟨size, h⟩ := payload_complete (t := t) (p := { p with view := { base := start } })
      hi hr ((allFit_ofPayload ht s _).mp hfit) hs hp'
    exact ⟨_, h, rfl⟩

/-! ### Dynamic values -/

/-- Reading a dynamic value through a pointer; `report` is what is reported in between. -/
lemma ends_behind (hd : t.isDynamic = true) (h : TailExact b t) (report : ℕ → List Notice) :
    (∃ v p1, Ends (pointer b) p v p1 ∧
      Ends (within v (outOfLine b t)) (p1.past 0 0 (report v.base)) n p') ↔
      Slot b p.view.base t p.view.position n ∧ n.AllFit b.size ∧
        p' = p.past t.slotSize n.cost (report n.start ++ n.trail) ∧ b.Allows p' := by
  rw [slot_dynamic_iff hd, AbiType.slotSize_of_isDynamic hd]
  simp only [ends_pointer]
  refine ⟨?_, ?_⟩
  · intro h
    rcases h with ⟨_, _, ⟨ahead, hi, hle, rfl, rfl, hp1⟩, hw⟩
    obtain ⟨ht, hc, rfl, hp'⟩ := (h _ _ _ _ (hp1.past _)).mp hw
    refine ⟨⟨ahead, hi, hle, ht⟩, hc, ?_, hp'⟩
    have hcost := ht.wordSize_le_cost
    simp only [Progress.past_past, ht.start_eq, List.nil_append]
    congr 1
    omega
  · intro h
    rcases h with ⟨⟨ahead, hi, hle, ht⟩, hc, rfl, hp'⟩
    have hcost := ht.wordSize_le_cost
    have hp1 : b.Allows (p.past wordSize wordSize []) := hp'.of_past_le hcost
    refine ⟨_, _, ⟨ahead, hi, hle, rfl, rfl, hp1⟩,
      (h _ _ _ _ (hp1.past _)).mpr ⟨ht, hc, ?_, hp'⟩⟩
    simp only [Progress.past_past, ht.start_eq, List.nil_append]
    congr 1
    omega

/-- A slot of a dynamic type is a pointer, and the value behind it. -/
lemma slotExact_of_tailExact (hd : t.isDynamic = true) (h : TailExact b t) : SlotExact b t := by
  intro p n p' hp
  rw [slot_dynamic hd]
  simp only [ends_bind]
  have hreport : ∀ {pos : ℕ}, Slot b p.view.base t pos n →
      [.followed t n.start] ++ n.trail = n.slotTrail := fun hs => by
    obtain ⟨_, -, -, ht⟩ := (slot_dynamic_iff hd).mp hs
    rw [ht.slotTrail_eq, ht.start_eq]
    rfl
  rw [← and_congr_right fun hs => by rw [← hreport hs],
    ← ends_behind hd h fun start => [.followed t start]]
  refine exists_congr fun v => exists_congr fun p1 => and_congr_right fun hv => ?_
  obtain ⟨_, -, -, -, -, hp1⟩ := ends_pointer.mp hv
  simp only [ends_notify hp1]
  refine ⟨fun h => ?_, fun hw => ⟨(), _, rfl, hw⟩⟩
  obtain ⟨_, _, rfl, hw⟩ := h
  exact hw

/-- A dynamic element of an array is a pointer too, but nothing is reported about it. -/
lemma ends_pointed (hd : t.isDynamic = true) (h : TailExact b t) :
    Ends (pointed b (outOfLine b t)) p n p' ↔
      Slot b p.view.base t p.view.position n ∧ n.AllFit b.size ∧
        p' = p.past t.slotSize n.cost n.trail ∧ b.Allows p' := by
  rw [pointed, ends_bind, ← List.nil_append n.trail, ← ends_behind hd h fun _ => []]
  refine exists_congr fun v => exists_congr fun p1 => and_congr_right fun hv => ?_
  obtain ⟨_, -, -, -, -, hp1⟩ := ends_pointer.mp hv
  rw [hp1.past_zero]

/-- What the reader of the elements of an array does, where these are dynamic. -/
lemma ends_times_pointed (hd : t.isDynamic = true) (h : TailExact b t) {count : ℕ}
    (hp : b.Allows p) : Ends (times count (pointed b (outOfLine b t))) p ns p' ↔
      Row b p.view.base (List.replicate count t) p.view.position ns ∧
        (∀ n ∈ ns, n.AllFit b.size) ∧
        p' = p.past (count * t.slotSize) (costOf ns) (trailOf false ns) ∧ b.Allows p' := by
  induction count generalizing p ns with
  | zero =>
    simp only [times, ends_pure, List.replicate_zero, row_nil_iff]
    refine ⟨?_, ?_⟩
    · intro h
      rcases h with ⟨rfl, rfl⟩
      exact ⟨rfl, by simp, by simp [hp.past_zero], hp⟩
    · intro h
      rcases h with ⟨rfl, -, rfl, -⟩
      exact ⟨rfl, by simp [hp.past_zero]⟩
  | succ count ih =>
    simp only [times, ends_bind, ends_pure, List.replicate_succ]
    refine ⟨?_, ?_⟩
    · intro h
      rcases h with ⟨n, p1, h1, ns', p2, h2, rfl, rfl⟩
      obtain ⟨hs, hc, rfl, hp1⟩ := (ends_pointed hd h).mp h1
      obtain ⟨hr, hcs, rfl, hp2⟩ := (ih hp1).mp h2
      rw [Progress.past_base, Progress.past_position] at hr
      exact ⟨.cons hs hr, by simpa using ⟨hc, hcs⟩,
        by simp [Nat.succ_mul, Nat.add_comm], hp2⟩
    · intro h
      rcases h with ⟨hr, hcs, rfl, hp2⟩
      obtain ⟨n, ns', rfl, hs, hr'⟩ := row_cons_iff.mp hr
      simp only [List.forall_mem_cons] at hcs
      have hp1 : b.Allows (p.past t.slotSize n.cost n.trail) := hp2.of_past_le (by simp)
      refine ⟨n, _, (ends_pointed hd h).mpr ⟨hs, hcs.1, rfl, hp1⟩, ns', _,
        (ih hp1).mpr ⟨?_, hcs.2, ?_, hp2⟩, rfl, rfl⟩
      · rwa [Progress.past_base, Progress.past_position]
      · simp [Nat.succ_mul, Nat.add_comm]

/-! ### Arrays -/

/-- The reader of the elements of an array, once they have been counted. -/
def elements (b : Buffer) (t : AbiType) (count : Nat) : Reading (List Node) := do
  if t.isDynamic then
    let heads ← MonadExcept.ofExcept ((← view).openAhead b 0)
    within heads (times count (pointed b (outOfLine b t)))
  else times count (inPlace b t)

lemma outOfLine_array : outOfLine b (.array t) = do
    let start := (← view).base
    let n ← count b
    let ns ← elements b t n
    notify (.arrayLocated (.array t) start n)
    return compound (.array t) start true ns := by
  cases hd : t.isDynamic <;> simp [outOfLine, elements, hd]

lemma ends_count {k : ℕ} : Ends (count b) p k p' ↔ b.bytes.IndexAt p.view.position k ∧
    p.view.position + wordSize + k ≤ b.size ∧ p' = p.past wordSize wordSize [] ∧
      b.Allows p' := by
  have hleft : b.bytes.IndexAt p.view.position k →
      (k ≤ (p.past wordSize wordSize []).view.remaining b ↔
        p.view.position + wordSize + k ≤ b.size) := fun hi => by
    have hlen : p.view.position + wordSize ≤ b.size := hi.le_length
    rw [View.remaining, Progress.past_position]
    omega
  simp only [count, ends_bind, ends_view, ends_index, ends_ite, ends_pure, ends_throw, and_false,
    or_false, and_assoc, exists_and_left, exists_eq_left', exists_eq_left]
  refine ⟨fun h => ?_, fun h => ?_⟩
  · rcases h with ⟨_, hi, hp', hle, rfl, rfl⟩
    exact ⟨hi, (hleft hi).mp hle, rfl, hp'⟩
  · rcases h with ⟨hi, hle, rfl, hp'⟩
    exact ⟨k, hi, hp', (hleft hi).mpr hle, rfl, rfl⟩

/-- The elements are a row whose pointers count from where it starts. The reader of static ones
moves the view on, that of dynamic ones does not. -/
lemma ends_elements (hslot : SlotExact b t) (htail : t.isDynamic = true → TailExact b t) {k : ℕ}
    (hp : b.Allows p) (hpos : p.view.position ≤ b.size) : Ends (elements b t k) p ns p' ↔
      Row b p.view.position (List.replicate k t) p.view.position ns ∧
        (t.isDynamic = true → p.view.position < offsetBound) ∧ (∀ n ∈ ns, n.AllFit b.size) ∧
        p' = p.past (if t.isDynamic then 0 else k * t.slotSize) (costOf ns) (trailOf false ns) ∧
        b.Allows p' := by
  by_cases hd : t.isDynamic = true
  · have hopen (v : View) : p.view.openAhead b 0 = .ok v ↔
        p.view.position < offsetBound ∧ v = { base := p.view.position } := by
      rw [View.openAhead, View.openAt, Nat.add_zero, if_pos hpos]
      by_cases hlt : p.view.position < offsetBound
      · simp [hlt, eq_comm]
      · simp [hlt]
    have hheads : b.Allows { p with view := { base := p.view.position } } := hp
    simp only [elements, hd, if_true, ends_bind, ends_view, ends_ofExcept, ends_within, hopen,
      and_assoc, exists_and_left, exists_eq_left', exists_eq_left]
    refine ⟨?_, ?_⟩
    · intro h
      rcases h with ⟨hlt, q, hq, rfl⟩
      obtain ⟨hr, hcs, rfl, hp'⟩ := (ends_times_pointed hd (htail hd) hheads).mp hq
      exact ⟨hr, fun _ => hlt, hcs, rfl, hp'⟩
    · intro h
      rcases h with ⟨hr, hlt, hcs, rfl, hp'⟩
      exact ⟨hlt trivial, _, (ends_times_pointed hd (htail hd) hheads).mpr ⟨hr, hcs, rfl, hp'⟩,
        rfl⟩
  · have hd' : t.isDynamic = false := by simpa using hd
    have hds : ∀ u ∈ List.replicate k t, u.isDynamic = false := fun u hu => by
      rw [List.eq_of_mem_replicate hu, hd']
    have hrow : RowExact b (List.replicate k t) :=
      rowExact fun u hu => List.eq_of_mem_replicate hu ▸ hslot
    have helements : elements b t k = record b (List.replicate k t) := by
      rw [record_static hds, ← times_inPlace]
      simp [elements, hd']
    rw [helements, hrow _ _ _ hp, AbiType.rowSize_replicate, if_neg hd]
    refine ⟨?_, ?_⟩
    · intro h
      rcases h with ⟨hr, hcs, rfl, hp'⟩
      obtain ⟨htrue, hfalse⟩ := hr.trailOf_of_static hds
      rw [htrue] at hp' ⊢
      rw [hfalse]
      exact ⟨hr.of_static hds, fun h => absurd h hd, hcs, rfl, hp'⟩
    · intro h
      rcases h with ⟨hr, -, hcs, rfl, hp'⟩
      obtain ⟨htrue, hfalse⟩ := hr.trailOf_of_static hds
      rw [hfalse] at hp' ⊢
      rw [htrue]
      exact ⟨hr.of_static hds, hcs, rfl, hp'⟩

/-- An array read from the start of a view. -/
lemma ends_array (hslot : SlotExact b t) (htail : t.isDynamic = true → TailExact b t)
    (hpos : p.view.position = p.view.base) :
    Ends (outOfLine b (.array t)) p n p' ↔ ∃ ns,
      b.bytes.IndexAt p.view.base ns.length ∧
      Row b (p.view.base + wordSize) (List.replicate ns.length t) (p.view.base + wordSize) ns ∧
      n = compound (.array t) p.view.base true ns ∧ n.AllFit b.size ∧
      p' = p.past (wordSize + if t.isDynamic then 0 else ns.length * t.slotSize)
        (wordSize + costOf ns) n.trail ∧ b.Allows p' := by
  have hnext : (p.past wordSize wordSize []).view.position = p.view.base + wordSize := by
    rw [Progress.past_position, hpos]
  rw [outOfLine_array]
  simp only [ends_bind, ends_view, ends_count, ends_pure, and_assoc, exists_and_left,
    exists_eq_left', exists_eq_left]
  refine ⟨?_, ?_⟩
  · intro h
    rcases h with ⟨k, hi, hle, hp1, ns, p2, he, _, _, hn, rfl, rfl⟩
    rw [hpos] at hi hle
    obtain ⟨hr, hlt, hcs, rfl, hp2⟩ := (ends_elements hslot htail hp1 (by omega)).mp he
    rw [ends_notify hp2] at hn
    subst hn
    have hlen := hr.length_eq
    rw [List.length_replicate] at hlen
    subst hlen
    rw [hnext] at hr hlt
    refine ⟨ns, hi, hr, rfl, allFit_array.mpr ⟨hle, hlt, hcs⟩, ?_, hp2.past _⟩
    simp only [Progress.past_past]
    rfl
  · intro h
    rcases h with ⟨ns, hi, hr, rfl, hc, rfl, hp'⟩
    obtain ⟨hle, hlt, hcs⟩ := allFit_array.mp hc
    have hp1 : b.Allows (p.past wordSize wordSize []) := hp'.of_past_le (by omega)
    have hp2 : b.Allows ((p.past wordSize wordSize []).past
        (if t.isDynamic then 0 else ns.length * t.slotSize) (costOf ns) (trailOf false ns)) := by
      rw [Progress.past_past]
      exact hp'.of_past_le le_rfl
    rw [← hpos] at hi hle
    refine ⟨ns.length, hi, hle, hp1, ns, _,
      (ends_elements hslot htail hp1 (by omega)).mpr ⟨?_, ?_, hcs, rfl, hp2⟩, (), _,
      (ends_notify hp2).mpr rfl, rfl, ?_⟩
    · rwa [hnext]
    · rwa [hnext]
    · simp only [Progress.past_past]
      rfl

lemma tailExact_array (hslot : SlotExact b t) (htail : t.isDynamic = true → TailExact b t) :
    TailExact b (.array t) := by
  intro p start n p' hp
  have harray (q : Progress) :
      Ends (outOfLine b (.array t)) { p with view := { base := start } } n q ↔ _ :=
    ends_array hslot htail rfl
  simp only [ends_within, harray, tail_array_iff]
  refine ⟨?_, ?_⟩
  · intro h
    rcases h with ⟨q, ⟨ns, hi, hr, rfl, hc, rfl, hq⟩, rfl⟩
    refine ⟨⟨ns, hi, hr, rfl⟩, hc, ?_, hq⟩
    rw [cost_array, Nat.add_sub_cancel_left]
    rfl
  · intro h
    rcases h with ⟨⟨ns, hi, hr, rfl⟩, hc, rfl, hp'⟩
    rw [cost_array, Nat.add_sub_cancel_left] at hp' ⊢
    exact ⟨_, ⟨ns, hi, hr, rfl, hc, rfl, hp'⟩, rfl⟩

/-- A dynamic row is read like the whole record, from its own start. -/
lemma tailExact_row (hm : t.members? = some ts) (h : RowExact b ts) : TailExact b t := by
  intro p start n p' hp
  have hp0 : b.Allows { p with view := { base := start } } := hp
  rw [outOfLine_row hm, tail_row_iff hm]
  simp only [ends_within, ends_bind, ends_view, ends_pure, and_assoc, exists_and_left,
    exists_eq_left']
  refine ⟨?_, ?_⟩
  · intro hends
    rcases hends with ⟨_, ⟨ns, q, hq, rfl, rfl⟩, rfl⟩
    obtain ⟨hr, hcs, rfl, hp'⟩ := (h _ _ _ hp0).mp hq
    refine ⟨⟨ns, hr, rfl⟩, (allFit_row hm).mpr hcs, ?_, hp'⟩
    rw [cost_row hm, if_pos rfl, Nat.add_sub_cancel_left, trail_row hm]
    rfl
  · intro hlaid
    rcases hlaid with ⟨⟨ns, hr, rfl⟩, hc, rfl, hp'⟩
    rw [cost_row hm, if_pos rfl, Nat.add_sub_cancel_left, trail_row hm] at hp' ⊢
    exact ⟨_, ⟨ns, _, (h _ _ _ hp0).mpr ⟨hr, (allFit_row hm).mp hc, rfl, hp'⟩, rfl, rfl⟩, rfl⟩

/-- A static row is read in place, on from where the view stands. -/
lemma slotExact_static_row (hm : t.members? = some ts) (hd : t.isDynamic = false)
    (h : RowExact b ts) : SlotExact b t := by
  intro p n p' hp
  have hds := AbiType.isDynamic_of_mem_members? hm hd
  rw [slot_static hd, inPlace_row hm hd, slot_static_row_iff hd hm,
    AbiType.slotSize_of_members? hm hd]
  simp only [ends_bind, ends_view, ends_pure, and_assoc, exists_and_left, exists_eq_left']
  refine ⟨?_, ?_⟩
  · intro hends
    rcases hends with ⟨ns, q, hq, rfl, rfl⟩
    obtain ⟨hr, hcs, rfl, hp'⟩ := (h _ _ _ hp).mp hq
    refine ⟨⟨ns, hr.of_static hds, rfl⟩, (allFit_row hm).mpr hcs, ?_, hp'⟩
    rw [cost_row hm, slotTrail, trail_row hm]
    simp [compound]
  · intro hlaid
    rcases hlaid with ⟨⟨ns, hr, rfl⟩, hc, rfl, hp'⟩
    have hcost : (compound t p.view.position false ns).cost = costOf ns := by
      rw [cost_row hm]
      simp
    have htrail : (compound t p.view.position false ns).slotTrail = trailOf true ns := by
      rw [slotTrail, trail_row hm]
      simp [compound]
    rw [hcost, htrail] at hp' ⊢
    exact ⟨ns, _, (h _ _ _ hp).mpr ⟨hr.of_static hds, (allFit_row hm).mp hc, rfl, hp'⟩, rfl, rfl⟩

lemma slotExact_scalar (ht : t.isScalar = true) : SlotExact b t := by
  intro p n p' hp
  rw [slot_static (AbiType.isScalar_not_isDynamic ht), inPlace_scalar ht, slot_scalar_iff ht,
    AbiType.slotSize_of_isScalar ht]
  simp only [ends_bind, ends_view, ends_word, ends_pure, and_assoc, exists_and_left,
    exists_eq_left', exists_eq_left]
  refine ⟨?_, ?_⟩
  · intro h
    rcases h with ⟨w, hw, hp', rfl, rfl⟩
    refine ⟨⟨w, hw, rfl⟩, allFit_ofWord ht w _, ?_, hp'⟩
    rw [cost_ofWord ht, slotTrail, trail_ofWord ht]
    rfl
  · intro h
    rcases h with ⟨⟨w, hw, rfl⟩, -, rfl, hp'⟩
    rw [cost_ofWord ht, slotTrail, trail_ofWord ht] at hp' ⊢
    exact ⟨w, hw, hp', rfl, rfl⟩

lemma slotExact_function : SlotExact b .function := by
  intro p n p' hp
  rw [slot_static rfl]
  refine ⟨?_, ?_⟩
  · intro h
    exact (ends_throw h).elim
  · intro h
    rcases h with ⟨h, -⟩
    exact (not_slot_function h).elim

/-- **Every part of the walk is exact.** -/
theorem exact_of_type (b : Buffer) (t : AbiType) :
    SlotExact b t ∧ (t.isDynamic = true → TailExact b t) := by
  induction t using AbiType.induct with
  | scalar t ht =>
    refine ⟨slotExact_scalar ht, fun hd => ?_⟩
    rw [AbiType.isScalar_not_isDynamic ht] at hd
    cases hd
  | function => exact ⟨slotExact_function, fun hd => by cases hd⟩
  | payload t ht =>
    have htail := tailExact_payload (b := b) ht
    exact ⟨slotExact_of_tailExact (AbiType.isPayload_isDynamic ht) htail, fun _ => htail⟩
  | array t ih =>
    have htail := tailExact_array ih.1 ih.2
    exact ⟨slotExact_of_tailExact rfl htail, fun _ => htail⟩
  | row t ts hm ih =>
    have hrow : RowExact b ts := rowExact fun u hu => (ih u hu).1
    refine ⟨?_, fun _ => tailExact_row hm hrow⟩
    cases hd : t.isDynamic with
    | false => exact slotExact_static_row hm hd hrow
    | true => exact slotExact_of_tailExact hd (tailExact_row hm hrow)

end AbiSpan.Layout
