import AbiSpan.Proofs.Layout.Static
import AbiSpan.Proofs.Layout.Survey

/-!
Where the numbers of a located tree stand.

A pointer stands in the slot of each dynamic value, a length before each payload and a count before
the elements of each array. These places can be read off the tree, in the order in which the walk
comes to them, and a survey of a walk that ends with the tree has them written down and no others.
-/

namespace AbiSpan

namespace Node

mutual

/-- Where the numbers of a value stand, its pointer apart: the length before a payload, the count
at the start of an array, and the numbers of what is inside. -/
def numbers : Node → List Nat
  | ⟨.bytes, offset, _, _, _, _⟩ => [offset - wordSize]
  | ⟨.string, offset, _, _, _, _⟩ => [offset - wordSize]
  | ⟨.array _, offset, _, _, _, children⟩ => offset :: numbersOf (offset + wordSize) children
  | ⟨_, offset, _, _, _, children⟩ => numbersOf offset children

/-- Where the numbers of a row stand, the first slot of which is at `pos`. -/
def numbersOf (pos : Nat) : List Node → List Nat
  | [] => []
  | c :: cs =>
    (if c.outOfLine then [pos] else []) ++ c.numbers ++ numbersOf (pos + c.type.slotSize) cs

end

/-- Where the numbers of a value stand, its pointer in the slot at `pos` included. -/
def slotNumbers (pos : Nat) (n : Node) : List Nat :=
  (if n.outOfLine then [pos] else []) ++ n.numbers

@[simp] lemma numbersOf_nil (pos : ℕ) : numbersOf pos [] = [] := rfl

@[simp] lemma numbersOf_cons (pos : ℕ) (n : Node) (ns : List Node) :
    numbersOf pos (n :: ns) = n.slotNumbers pos ++ numbersOf (pos + n.type.slotSize) ns := by
  rw [numbersOf, slotNumbers]

lemma numbersOf_eq_nil {pos : ℕ} {ns : List Node} (h : ∀ c ∈ ns, ∀ q, c.slotNumbers q = []) :
    numbersOf pos ns = [] := by
  induction ns generalizing pos with
  | nil => rfl
  | cons n ns ih => rw [numbersOf_cons, h n (by simp), ih fun c hc => h c (by simp [hc])]; rfl

end Node

namespace Layout

open Node

variable {b : Buffer} {base pos start : ℕ} {t : AbiType} {ts : List AbiType} {n : Node}
  {ns : List Node}

lemma numbers_ofWord (ht : t.isScalar = true) (w : Bytes) : (ofWord t pos w).numbers = [] := by
  cases t <;> first | rfl | cases ht

lemma numbers_ofPayload (ht : t.isPayload = true) (s : Bytes) :
    (ofPayload t (start + wordSize) s).numbers = [start] := by
  cases t <;> first | rfl | cases ht

lemma numbers_array {outOfLine : Bool} :
    (compound (.array t) pos outOfLine ns).numbers = pos :: numbersOf (pos + wordSize) ns := rfl

lemma numbers_row (hm : t.members? = some ts) {outOfLine : Bool} :
    (compound t pos outOfLine ns).numbers = numbersOf pos ns := by
  cases t <;> first | rfl | cases hm

lemma Tail.slotNumbers_eq (h : Tail b t start n) : n.slotNumbers pos = pos :: n.numbers := by
  cases h <;> rfl

/-- There is no number in a static value. -/
lemma Slot.slotNumbers_of_static (hd : t.isDynamic = false) (h : Slot b base t pos n) (q : ℕ) :
    n.slotNumbers q = [] := by
  induction t, hd using AbiType.induct_static generalizing base pos n q with
  | scalar t ht =>
    obtain ⟨w, -, rfl⟩ := (slot_scalar_iff ht).mp h
    rw [slotNumbers, numbers_ofWord ht]
    rfl
  | function => exact (not_slot_function h).elim
  | row t ts hm hd ih =>
    obtain ⟨ns, hr, rfl⟩ := (slot_static_row_iff hd hm).mp h
    rw [slotNumbers, numbers_row hm, numbersOf_eq_nil fun c hc => ?_]
    · rfl
    · obtain ⟨u, hu, _, hs⟩ := hr.exists_slot hc
      exact ih u hu hs

end Layout

namespace Surveying

open Layout Node

variable {α β : Type} {b : Buffer} {p p' : Progress} {a : α} {places : List ℕ}

/-! ### Surveys in which nothing is written down -/

/-- However the survey ends, nothing has been written down. -/
def Silent (x : Surveying α) : Prop := ∀ p, (x p).2.1 = []

lemma silent_pure (a : α) : Silent (pure a) := fun _ => rfl

lemma silent_read (x : Reading α) : Silent (read x) := fun _ => rfl

lemma silent_fail (fault : ReadFault) : Silent (fail fault : Surveying α) := fun _ => rfl

lemma Silent.bind {x : Surveying α} {f : α → Surveying β} (hx : Silent x)
    (hf : ∀ a, Silent (f a)) : Silent (x >>= f) := by
  intro p
  have hplaces := hx p
  rcases h : x p with ⟨fault | a, places, p'⟩
  · rw [h] at hplaces
    rw [bind_error h]
    exact hplaces
  · rw [h] at hplaces
    rw [bind_ok h, show places = [] from hplaces]
    exact hf a p'

lemma silent_check {c : Prop} [Decidable c] (a : α) (fault : ReadFault) :
    Silent (if c then pure a else fail fault) := by
  split
  · exact silent_pure a
  · exact silent_fail fault

lemma silent_times {x : Surveying α} (hx : Silent x) (n : ℕ) : Silent (Reader.times n x) := by
  induction n with
  | zero => exact silent_pure _
  | succ n ih => exact hx.bind fun _ => ih.bind fun _ => silent_pure _

mutual

/-- No number is read for a static value. -/
theorem silent_inPlace : ∀ t, Silent ((ofBuffer b).inPlace t)
  | .fixedArray t n => (silent_read _).bind fun _ =>
    (silent_times (silent_inPlace t) n).bind fun _ => silent_pure _
  | .tuple ts => (silent_read _).bind fun _ => (silent_inPlaceAll ts).bind fun _ => silent_pure _
  | .bool | .int _ | .uint _ | .fixedBytes _ | .address =>
    (silent_read _).bind fun _ => (silent_read _).bind fun _ => silent_pure _
  | .function | .bytes | .string | .array _ => silent_fail _

theorem silent_inPlaceAll : ∀ ts, Silent ((ofBuffer b).inPlaceAll ts)
  | [] => silent_pure _
  | t :: ts => (silent_inPlace t).bind fun _ => (silent_inPlaceAll ts).bind fun _ => silent_pure _

end

lemma silent_heads : Silent (ofBuffer b).heads := by
  refine (silent_read _).bind fun v => ?_
  cases v.openAhead (ofBuffer b).buffer 0 with
  | ok v' => exact silent_pure v'
  | error fault => exact silent_fail fault

/-! ### What a survey has written down when it ends with a value -/

/-- Begun in `p`, the survey ends with `a`, in `p'`, and has written down the places. -/
def Writes (x : Surveying α) (p : Progress) (a : α) (places : List Nat) (p' : Progress) : Prop :=
  x p = (.ok a, places, p')

lemma Writes.eq_nil {x : Surveying α} (h : Writes x p a places p') (hx : Silent x) :
    places = [] := by
  have hplaces := hx p
  rwa [h] at hplaces

lemma writes_pure {c : α} :
    Writes (pure c) p a places p' ↔ c = a ∧ places = [] ∧ p = p' := by
  constructor
  · rintro ⟨⟩
    exact ⟨rfl, rfl, rfl⟩
  · rintro ⟨rfl, rfl, rfl⟩
    rfl

lemma writes_read {x : Reading α} :
    Writes (read x) p a places p' ↔ Ends x p a p' ∧ places = [] := by
  unfold Writes Ends read
  rcases outcome x p with ⟨r, q⟩
  simp only [Prod.mk.injEq]
  tauto

lemma writes_bind {x : Surveying α} {f : α → Surveying β} {c : β} :
    Writes (x >>= f) p c places p' ↔ ∃ a q front back, Writes x p a front q ∧
      Writes (f a) q c back p' ∧ places = front ++ back := by
  unfold Writes
  constructor
  · intro h
    rcases hx : x p with ⟨fault | a, front, q⟩
    · rw [bind_error hx] at h
      cases h
    · rw [bind_ok hx] at h
      simp only [Prod.mk.injEq] at h
      obtain ⟨hr, rfl, rfl⟩ := h
      exact ⟨a, q, front, _, rfl, by rw [← hr], rfl⟩
  · rintro ⟨a, q, front, back, hx, hf, rfl⟩
    rw [bind_ok hx, hf]

/-- What is only read before the rest of a survey writes nothing down. -/
lemma writes_read_bind {x : Reading α} {f : α → Surveying β} {c : β} :
    Writes (read x >>= f) p c places p' ↔ ∃ a q, Ends x p a q ∧ Writes (f a) q c places p' := by
  rw [writes_bind]
  constructor
  · rintro ⟨a, q, front, back, hread, hf, rfl⟩
    obtain ⟨hx, rfl⟩ := writes_read.mp hread
    exact ⟨a, q, hx, hf⟩
  · rintro ⟨a, q, hx, hf⟩
    exact ⟨a, q, [], places, writes_read.mpr ⟨hx, rfl⟩, hf, rfl⟩

lemma writes_view_bind {f : View → Surveying β} {c : β} :
    Writes (read Reading.view >>= f) p c places p' ↔ Writes (f p.view) p c places p' := Iff.rfl

lemma writes_writeDown_bind {place : ℕ} {f : Unit → Surveying β} {c : β} :
    Writes (writeDown place >>= f) p c places p' ↔
      ∃ back, Writes (f ()) p c back p' ∧ places = place :: back := by
  have hwrite : Writes (writeDown place) p () [place] p := rfl
  rw [writes_bind]
  constructor
  · rintro ⟨_, q, front, back, hx, hf, rfl⟩
    cases hwrite.symm.trans hx
    exact ⟨back, hf, rfl⟩
  · rintro ⟨back, hf, rfl⟩
    exact ⟨(), p, [place], back, hwrite, hf, rfl⟩

/-- A survey ends where a reading ends that follows it. -/
lemma Writes.ends {R : α → β → Prop} {x : Surveying α} {y : Reading β}
    (h : Writes x p a places p') (hxy : Follows (SameWord b b) R x y) :
    ∃ c, R a c ∧ Ends y p c p' := by
  rcases hxy p fun _ _ => rfl with ⟨a', c, places', q, hac, hx, hy⟩ | ⟨fault, places', q, hx, -⟩
  · cases h.symm.trans hx
    exact ⟨c, hac, hy⟩
  · cases h.symm.trans hx

/-- A number is written down where it is read. -/
lemma Writes.index {k : ℕ} (h : Writes (index b) p k places p') : places = [p.view.position] := by
  obtain ⟨w, q, -, hrest⟩ := writes_read_bind.mp (writes_view_bind.mp h)
  obtain ⟨back, hcheck, rfl⟩ := writes_writeDown_bind.mp hrest
  rw [hcheck.eq_nil (silent_check _ _)]

lemma Writes.pointer {v : View} (h : Writes (ofBuffer b).pointer p v places p') :
    places = [p.view.position] := by
  obtain ⟨target, q, front, back, hindex, hcheck, rfl⟩ := writes_bind.mp (writes_view_bind.mp h)
  rw [hindex.index, hcheck.eq_nil (silent_check _ _), List.append_nil]

/-- Through another view the same is written down. -/
lemma Writes.within {v : View} {x : Surveying α}
    (h : Writes ((ofBuffer b).within v x) p a places p') :
    ∃ q, Writes x { p with view := v } a places q := by
  obtain ⟨_, _, hset, hrest⟩ := writes_read_bind.mp (writes_view_bind.mp h)
  rw [← Reading.ends_setView.mp hset] at hrest
  obtain ⟨c, q, front, back, hx, hreset, rfl⟩ := writes_bind.mp hrest
  obtain ⟨_, _, -, hpure⟩ := writes_read_bind.mp hreset
  obtain ⟨rfl, rfl, -⟩ := writes_pure.mp hpure
  rw [List.append_nil]
  exact ⟨q, hx⟩

/-! ### The numbers of what is found -/

variable {t : AbiType} {ts : List AbiType} {n : Node} {ns : List Node} {start : ℕ}

/-- A survey that ends with a node ends as the reading without a survey. -/
lemma Writes.ends_node {x : Surveying Node} {y : Reading Node} (h : Writes x p n places p')
    (hxy : Follows (SameWord b b) (Alike (b ≠ b)) x y) : Ends y p n p' := by
  obtain ⟨m, halike, hy⟩ := h.ends hxy
  rwa [halike.2 (not_not.mpr rfl)]

/-- The survey of a buffer goes as the walk over it. -/
lemma displaced_self (b : Buffer) : (ofBuffer b).Displaced 0 (Reader.ofBuffer b)
    (Follows (SameWord b b)) Eq (fun s s' => b = b → s = s') (Alike (b ≠ b)) :=
  (parallel_of_peers ⟨rfl, rfl⟩).displaced

/-- What is written down about a slot are the numbers of its node. -/
def SlotNumbers (b : Buffer) (t : AbiType) : Prop :=
  ∀ p n places p', b.Allows p →
    Writes ((ofBuffer b).slot t ((ofBuffer b).outOfLine t)) p n places p' →
      places = n.slotNumbers p.view.position

/-- The same of a dynamic value, the pointer to which has been read before. -/
def TailNumbers (b : Buffer) (t : AbiType) : Prop :=
  ∀ p start n places p', b.Allows p →
    Writes ((ofBuffer b).within { base := start } ((ofBuffer b).outOfLine t)) p n places p' →
      places = n.numbers

/-- The same of a row. -/
def RowNumbers (b : Buffer) (ts : List AbiType) : Prop :=
  ∀ p ns places p', b.Allows p → Writes ((ofBuffer b).record ts) p ns places p' →
    places = numbersOf p.view.position ns

lemma Writes.slot_exact (hp : b.Allows p)
    (h : Writes ((ofBuffer b).slot t ((ofBuffer b).outOfLine t)) p n places p') :
    Slot b p.view.base t p.view.position n ∧
      p' = p.past t.slotSize n.cost n.slotTrail ∧ b.Allows p' := by
  have hends := h.ends_node ((displaced_self b).slot t)
  rw [Reader.slot_ofBuffer, Reader.outOfLine_ofBuffer] at hends
  obtain ⟨hslot, -, hp'⟩ := ((exact_of_type b t).1 _ _ _ hp).mp hends
  exact ⟨hslot, hp'⟩

lemma Writes.tail_exact (hd : t.isDynamic = true) (hp : b.Allows p)
    (h : Writes ((ofBuffer b).within { base := start } ((ofBuffer b).outOfLine t)) p n places p') :
    Tail b t start n := by
  have hends := h.ends_node ((displaced_self b).tail t hd _ _ rfl)
  rw [Reader.outOfLine_ofBuffer] at hends
  exact (((exact_of_type b t).2 hd _ _ _ _ hp).mp hends).1

lemma rowNumbers (h : ∀ t ∈ ts, SlotNumbers b t) : RowNumbers b ts := by
  intro p ns places p' hp hrow
  induction ts generalizing p ns places with
  | nil =>
    obtain ⟨rfl, rfl, -⟩ := writes_pure.mp hrow
    rfl
  | cons t ts ih =>
    obtain ⟨n, p1, front, rest, hslot, hrest, rfl⟩ := writes_bind.mp hrow
    obtain ⟨ns', p2, back, last, hback, hpure, rfl⟩ := writes_bind.mp hrest
    obtain ⟨rfl, rfl, rfl⟩ := writes_pure.mp hpure
    obtain ⟨hs, rfl, hp1⟩ := hslot.slot_exact hp
    have hfront := h t (by simp) _ _ _ _ hp hslot
    have hback := ih (fun u hu => h u (by simp [hu])) _ _ _ hp1 hback
    rw [Progress.past_position] at hback
    rw [numbersOf_cons, hs.type_eq, List.append_nil, hfront, hback]

/-- A pointer, and what is behind it. -/
lemma TailNumbers.behind (hd : t.isDynamic = true) (h : TailNumbers b t) {v : View}
    {q q' : Progress} {front back : List ℕ} (hq : b.Allows q)
    (hv : Writes (ofBuffer b).pointer p v front p')
    (hn : Writes ((ofBuffer b).within v ((ofBuffer b).outOfLine t)) q n back q') :
    front ++ back = n.slotNumbers p.view.position := by
  obtain ⟨_, rfl, hpointer⟩ := hv.ends (displaced_self b).pointer
  obtain ⟨ahead, -, -, rfl, -⟩ := Reading.ends_pointer.mp hpointer
  rw [(hn.tail_exact hd hq).slotNumbers_eq, hv.pointer, h _ _ _ _ _ hq hn]
  rfl

lemma TailNumbers.slot (hd : t.isDynamic = true) (h : TailNumbers b t) : SlotNumbers b t := by
  intro p n places p' hp hslot
  rw [Reader.slot_dynamic hd] at hslot
  obtain ⟨v, p1, front, back, hv, hrest, rfl⟩ := writes_bind.mp hslot
  obtain ⟨_, _, hnotify, hn⟩ := writes_read_bind.mp hrest
  obtain ⟨_, rfl, hpointer⟩ := hv.ends (displaced_self b).pointer
  obtain ⟨_, -, -, -, rfl, hp1⟩ := Reading.ends_pointer.mp hpointer
  rw [(Reading.ends_notify hp1).mp hnotify] at hn
  exact h.behind hd (hp1.past _) hv hn

/-- The slot of a static value is the value, and there are no numbers in it. -/
lemma slotNumbers_static (hd : t.isDynamic = false) : SlotNumbers b t := by
  intro p n places p' hp hslot
  rw [(hslot.slot_exact hp).1.slotNumbers_of_static hd]
  rw [Reader.slot_static hd] at hslot
  exact hslot.eq_nil (silent_inPlace t)

lemma tailNumbers_payload (ht : t.isPayload = true) : TailNumbers b t := by
  intro p start n places p' hp h
  have htail := h.tail_exact (AbiType.isPayload_isDynamic ht) hp
  obtain ⟨s, -, -, -, rfl⟩ := (tail_payload_iff ht).mp htail
  obtain ⟨_, hpayload⟩ := h.within
  rw [Reader.outOfLine_payload ht] at hpayload
  obtain ⟨size, _, front, back, hindex, hrest, rfl⟩ := writes_bind.mp hpayload
  obtain ⟨_, _, -, hrest'⟩ := writes_read_bind.mp hrest
  obtain ⟨_, _, -, hpure⟩ := writes_read_bind.mp hrest'
  obtain ⟨-, rfl, -⟩ := writes_pure.mp hpure
  rw [hindex.index, numbers_ofPayload ht]
  rfl

lemma tailNumbers_row (hm : t.members? = some ts) (h : RowNumbers b ts) :
    TailNumbers b t := by
  intro p start n places p' hp hrow
  obtain ⟨_, hrow'⟩ := hrow.within
  rw [Reader.outOfLine_row hm] at hrow'
  obtain ⟨ns, _, front, back, hrecord, hpure, rfl⟩ := writes_bind.mp (writes_view_bind.mp hrow')
  obtain ⟨rfl, rfl, -⟩ := writes_pure.mp hpure
  have hstart : b.Allows { p with view := { base := start } } := hp
  rw [numbers_row hm, List.append_nil]
  exact h _ _ _ _ hstart hrecord

/-- The pointers to the elements of an array stand on end. -/
lemma TailNumbers.times_pointed (hd : t.isDynamic = true) (h : TailNumbers b t) {count : ℕ}
    (hp : b.Allows p) (hns : Writes
      (Reader.times count ((ofBuffer b).pointed ((ofBuffer b).outOfLine t))) p ns places p') :
    places = numbersOf p.view.position ns := by
  induction count generalizing p ns places with
  | zero =>
    obtain ⟨rfl, rfl, -⟩ := writes_pure.mp hns
    rfl
  | succ count ih =>
    obtain ⟨n, p1, front, rest, hn, hrest, rfl⟩ := writes_bind.mp hns
    obtain ⟨ns', p2, back, last, hback, hpure, rfl⟩ := writes_bind.mp hrest
    obtain ⟨rfl, rfl, rfl⟩ := writes_pure.mp hpure
    have hself := displaced_self b
    have hpointed := hn.ends_node (hself.paired.pointed_of_tails (hself.tail t hd))
    rw [Reader.outOfLine_ofBuffer] at hpointed
    obtain ⟨hs, -, rfl, hp1⟩ := (ends_pointed hd ((exact_of_type b t).2 hd)).mp hpointed
    obtain ⟨v, q, first, second, hv, hbehind, rfl⟩ := writes_bind.mp hn
    obtain ⟨_, rfl, hpointer⟩ := hv.ends (displaced_self b).pointer
    obtain ⟨_, -, -, -, rfl, hq⟩ := Reading.ends_pointer.mp hpointer
    have hback := ih hp1 hback
    rw [Progress.past_position] at hback
    rw [numbersOf_cons, hs.type_eq, List.append_nil, h.behind hd hq hv hbehind, hback]

lemma Writes.count {k : ℕ} (h : Writes (ofBuffer b).count p k places p') :
    places = [p.view.position] ∧ p' = p.past wordSize wordSize [] ∧ b.Allows p' := by
  obtain ⟨_, rfl, hk⟩ := h.ends (displaced_self b).count
  refine ⟨?_, (ends_count.mp hk).2.2⟩
  obtain ⟨_, _, front, back, hindex, hrest, rfl⟩ := writes_bind.mp (writes_view_bind.mp h)
  rw [hindex.index, (writes_view_bind.mp hrest).eq_nil (silent_check _ _), List.append_nil]

/-- The view at the next read, and nothing written down. -/
lemma Writes.heads {v : View} (h : Writes (ofBuffer b).heads p v places p') :
    v = { base := p.view.position } ∧ places = [] ∧ p' = p := by
  obtain ⟨_, rfl, hv⟩ := h.ends (displaced_self b).heads
  rw [Reader.heads_ofBuffer] at hv
  simp only [ends_bind, Reading.ends_view, ends_ofExcept] at hv
  obtain ⟨_, _, ⟨rfl, rfl⟩, hopen, rfl⟩ := hv
  refine ⟨?_, h.eq_nil silent_heads, rfl⟩
  unfold View.openAhead at hopen
  split at hopen
  · exact (View.openAt_eq_ok_iff.mp hopen).2
  · cases hopen

lemma Writes.elements (h : t.isDynamic = true → TailNumbers b t) {k : ℕ} (hp : b.Allows p)
    (hstatic : t.isDynamic = false → ∀ c ∈ ns, ∀ q, c.slotNumbers q = [])
    (hns : Writes ((ofBuffer b).elements t ((ofBuffer b).outOfLine t) k) p ns places p') :
    places = numbersOf p.view.position ns := by
  unfold Reader.elements at hns
  split at hns
  · obtain ⟨v, q, front, back, hv, hback, rfl⟩ := writes_bind.mp hns
    obtain ⟨rfl, rfl, rfl⟩ := hv.heads
    obtain ⟨_, hpointed⟩ := hback.within
    have hheads : b.Allows { q with view := { base := q.view.position } } := hp
    have hplaces := (h ‹_›).times_pointed ‹_› hheads hpointed
    exact hplaces
  · have hd : t.isDynamic = false := by simpa using ‹¬ t.isDynamic = true›
    rw [hns.eq_nil (silent_times (silent_inPlace t) k), numbersOf_eq_nil (hstatic hd)]

lemma tailNumbers_array (h : t.isDynamic = true → TailNumbers b t) :
    TailNumbers b (.array t) := by
  intro p start n places p' hp harray
  have hstart : b.Allows { p with view := { base := start } } := hp
  obtain ⟨ns, -, hr, rfl⟩ := tail_array_iff.mp (harray.tail_exact rfl hp)
  obtain ⟨_, harray'⟩ := harray.within
  obtain ⟨k, p1, front, rest, hcount, hrest, rfl⟩ := writes_bind.mp (writes_view_bind.mp harray')
  obtain ⟨ns', p2, back, last, helements, hreport, rfl⟩ := writes_bind.mp hrest
  obtain ⟨_, _, -, hpure⟩ := writes_read_bind.mp hreport
  obtain ⟨hnode, rfl, -⟩ := writes_pure.mp hpure
  obtain rfl : ns' = ns := congrArg Node.children hnode
  obtain ⟨rfl, rfl, hp1⟩ := hcount.count
  have hplaces := helements.elements h hp1 fun hd c hc q => by
    obtain ⟨u, hu, _, hs⟩ := hr.exists_slot hc
    rw [List.eq_of_mem_replicate hu] at hs
    exact hs.slotNumbers_of_static hd q
  rw [numbers_array, hplaces, List.append_nil, Progress.past_position]
  rfl

/-- Of everything that is found, the numbers are written down and nothing else. -/
theorem numbers_of_type (b : Buffer) (t : AbiType) :
    SlotNumbers b t ∧ (t.isDynamic = true → TailNumbers b t) := by
  induction t using AbiType.induct with
  | scalar t ht =>
    have hd := AbiType.isScalar_not_isDynamic ht
    exact ⟨slotNumbers_static hd, fun hd' => by rw [hd] at hd'; cases hd'⟩
  | function => exact ⟨slotNumbers_static rfl, fun hd => by cases hd⟩
  | payload t ht =>
    have htail := tailNumbers_payload (b := b) ht
    exact ⟨htail.slot (AbiType.isPayload_isDynamic ht), fun _ => htail⟩
  | array t ih =>
    have htail := tailNumbers_array ih.2
    exact ⟨htail.slot rfl, fun _ => htail⟩
  | row t ts hm ih =>
    have htail := tailNumbers_row hm (rowNumbers fun u hu => (ih u hu).1)
    refine ⟨?_, fun _ => htail⟩
    cases hd : t.isDynamic with
    | false => exact slotNumbers_static hd
    | true => exact htail.slot hd

end Surveying

namespace Layout

open Node Surveying

/-- The places that are consulted on the way to a tree are where the numbers of the tree stand, in
order. -/
theorem consulted_eq {b : Buffer} {ts : List AbiType} {ns : List Node}
    (h : (locate b ts).1 = .ok ns) : consulted b ts = numbersOf 0 ns := by
  have herased := congrArg Prod.fst (survey_erased b ts)
  have hwrites : Writes (surveying b ts) {} ns (consulted b ts) (survey b ts).2.2 :=
    Prod.ext (herased.trans h) rfl
  obtain ⟨ns', _, front, back, hrecord, hreport, hplaces⟩ := writes_bind.mp hwrites
  obtain ⟨hends, rfl⟩ := writes_read.mp hreport
  simp only [ends_bind, ends_pure] at hends
  obtain ⟨_, _, _, _, _, _, rfl, _⟩ := hends
  rw [hplaces, List.append_nil]
  exact rowNumbers (fun t _ => (numbers_of_type b t).1) _ _ _ _ allows_start hrecord

end Layout

end AbiSpan
