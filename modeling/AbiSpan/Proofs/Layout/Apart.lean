import AbiSpan.Proofs.Layout.Numbers
import AbiSpan.Proofs.Layout.RoundTrip

/-!
In what an encoder has written nothing overlaps.

`locate` accepts pointers that lead anywhere, so two nodes may share their bytes, or lie over a
pointer. An encoder writes the slots of a row and then the tails, one behind the other: what is
found of a value lies within its encoding, its own slots before its own tails, and no byte is taken
twice. The elements of an array come in order for the same reason, if each takes a byte or more.
-/

namespace AbiSpan

/-! ### Rows with members -/

namespace AbiType

mutual

/-- No row is empty, neither the type itself nor one inside it at any depth: there is no tuple
without members and no fixed array of length zero. -/
def rowsFilled : AbiType → Bool
  | .array t => t.rowsFilled
  | .fixedArray t n => n != 0 && t.rowsFilled
  | .tuple ts => !ts.isEmpty && allRowsFilled ts
  | _ => true

def allRowsFilled : List AbiType → Bool
  | [] => true
  | t :: ts => t.rowsFilled && allRowsFilled ts

end

lemma allRowsFilled_iff {ts : List AbiType} :
    allRowsFilled ts = true ↔ ∀ t ∈ ts, t.rowsFilled = true := by
  induction ts with
  | nil => simp [allRowsFilled]
  | cons t ts ih => simp [allRowsFilled, ih]

/-- A filled row has a first member, and its members are filled. -/
lemma rowsFilled_members? {t : AbiType} {ts : List AbiType} (hm : t.members? = some ts)
    (ht : t.rowsFilled = true) : (∃ u us, ts = u :: us) ∧ ∀ u ∈ ts, u.rowsFilled = true := by
  cases t with
  | fixedArray t n =>
    cases hm
    simp only [rowsFilled, Bool.and_eq_true, bne_iff_ne] at ht
    obtain ⟨k, rfl⟩ := Nat.exists_eq_succ_of_ne_zero ht.1
    refine ⟨⟨t, List.replicate k t, rfl⟩, fun u hu => ?_⟩
    rw [List.eq_of_mem_replicate hu]
    exact ht.2
  | tuple ts =>
    cases hm
    simp only [rowsFilled, Bool.and_eq_true] at ht
    refine ⟨?_, allRowsFilled_iff.mp ht.2⟩
    cases ts with
    | nil => cases ht.1
    | cons u us => exact ⟨u, us, rfl⟩
  | _ => cases hm

lemma slotSize_pos {t : AbiType} (ht : t.rowsFilled = true) : 0 < t.slotSize := by
  have hword : 0 < wordSize := by decide
  induction t using AbiType.induct with
  | scalar t hs => rwa [slotSize_of_isScalar hs]
  | function => exact hword
  | payload t hp => rwa [slotSize_of_isDynamic (isPayload_isDynamic hp)]
  | array t ih => exact hword
  | row t ts hm ih =>
    cases hd : t.isDynamic with
    | false =>
      obtain ⟨⟨u, us, rfl⟩, hfilled⟩ := rowsFilled_members? hm ht
      have hu := ih u (by simp) (hfilled u (by simp))
      rw [slotSize_of_members? hm hd, rowSize_cons]
      omega
    | true => rwa [slotSize_of_isDynamic hd]

lemma elemsTakeRoom_of_rowsFilled {t : AbiType} (ht : t.rowsFilled = true) :
    t.elemsTakeRoom = true := by
  induction t using AbiType.induct with
  | scalar t hs => cases t <;> first | rfl | cases hs
  | function => rfl
  | payload t hp => cases t <;> first | rfl | cases hp
  | array t ih =>
    have ht' : t.rowsFilled = true := ht
    have hpos := slotSize_pos ht'
    simp only [elemsTakeRoom, ih ht', Bool.and_true, bne_iff_ne]
    omega
  | row t ts hm ih =>
    cases t with
    | fixedArray t n =>
      cases hm
      simp only [rowsFilled, Bool.and_eq_true, bne_iff_ne] at ht
      exact ih t (List.mem_replicate.mpr ⟨ht.1, rfl⟩) ht.2
    | tuple ts =>
      cases hm
      exact allElemsTakeRoom_iff.mpr fun u hu => ih u hu ((rowsFilled_members? rfl ht).2 u hu)
    | _ => cases hm

end AbiType

/-! ### Ranges apart -/

/-- One of the ranges ends before the other starts. -/
def Span.Apart (s s' : Span) : Prop :=
  s.offset + s.size ≤ s'.offset ∨ s'.offset + s'.size ≤ s.offset

lemma Span.Apart.symm {s s' : Span} (h : s.Apart s') : s'.Apart s := Or.symm h

/-- The ranges lie between `lo` and `hi`, and none overlaps another. -/
structure Packs (lo hi : Nat) (spans : List Span) : Prop where
  within : ∀ s ∈ spans, lo ≤ s.offset ∧ s.offset + s.size ≤ hi
  apart : spans.Pairwise Span.Apart

section Packs

variable {lo mid mid' hi : ℕ} {s : Span} {ss ss' : List Span}

lemma packs_nil : Packs lo hi [] := ⟨by simp, .nil⟩

lemma packs_singleton (hlo : lo ≤ s.offset) (hhi : s.offset + s.size ≤ hi) : Packs lo hi [s] :=
  ⟨by simp [hlo, hhi], List.pairwise_singleton _ _⟩

lemma Packs.mono (h : Packs mid mid' ss) (hlo : lo ≤ mid) (hhi : mid' ≤ hi) : Packs lo hi ss where
  within s hs := ⟨hlo.trans (h.within s hs).1, (h.within s hs).2.trans hhi⟩
  apart := h.apart

lemma Packs.perm (h : Packs lo hi ss) (hperm : ss'.Perm ss) : Packs lo hi ss' where
  within s hs := h.within s (hperm.mem_iff.mp hs)
  apart := (hperm.pairwise_iff Span.Apart.symm).mpr h.apart

/-- Ranges in front and ranges behind. -/
lemma Packs.append (h : Packs lo mid ss) (h' : Packs mid hi ss') (hlo : lo ≤ mid) (hhi : mid ≤ hi) :
    Packs lo hi (ss ++ ss') where
  within s hs := by
    rcases List.mem_append.mp hs with hs | hs
    · exact (h.mono le_rfl hhi).within s hs
    · exact (h'.mono hlo le_rfl).within s hs
  apart := List.pairwise_append.mpr ⟨h.apart, h'.apart, fun s hs s' hs' =>
    .inl ((h.within s hs).2.trans (h'.within s' hs').1)⟩

end Packs

/-! ### What a tree takes of a buffer -/

namespace Node

/-- The ranges of the leaves of a value, and the words that hold its numbers, its pointer apart. -/
def marks (n : Node) : List Span := n.leaves.filterMap span? ++ n.numbers.map (⟨·, wordSize⟩)

/-- The same with its pointer, in the slot at `pos`. -/
def slotMarks (pos : Nat) (n : Node) : List Span :=
  n.leaves.filterMap span? ++ (n.slotNumbers pos).map (⟨·, wordSize⟩)

/-- The same of a row, the first slot of which is at `pos`. -/
def marksOf (pos : Nat) (ns : List Node) : List Span :=
  (leavesOf ns).filterMap span? ++ (numbersOf pos ns).map (⟨·, wordSize⟩)

lemma marksOf_cons (pos : ℕ) (n : Node) (ns : List Node) :
    (marksOf pos (n :: ns)).Perm (n.slotMarks pos ++ marksOf (pos + n.type.slotSize) ns) := by
  refine List.perm_iff_count.mpr fun s => ?_
  simp only [marksOf, slotMarks, leavesOf, numbersOf_cons, List.filterMap_append, List.map_append,
    List.count_append]
  omega

/-- The elements of an array, of any length or of a fixed one, come in order. -/
def Ascending (n : Node) : Prop :=
  ∀ t, (n.type = .array t ∨ ∃ k, n.type = .fixedArray t k) →
    (n.children.map (·.offset)).Pairwise (· < ·)

lemma ascending_of_below {n : Node} (hn : n.Ascending)
    (hbelow : ∀ m ∈ preorderOf n.children, m.Ascending) : ∀ m ∈ n.preorder, m.Ascending := by
  rw [preorder_eq]
  exact List.forall_mem_cons.mpr ⟨hn, hbelow⟩

lemma ascending_of_no_children {n : Node} (h : n.children = []) :
    ∀ m ∈ n.preorder, m.Ascending :=
  ascending_of_below (fun t _ => by rw [h]; exact .nil) (by simp [h])

end Node

namespace Layout

open Node Value
open scoped List

variable {b : Buffer} {base pos start ahead : ℕ} {t : AbiType} {ts : List AbiType} {v : Value}
  {vs : List Value} {n : Node} {ns : List Node}

lemma Slot.slotMarks_of_static (hd : t.isDynamic = false) (h : Slot b base t pos n) (q : ℕ) :
    n.slotMarks q = n.marks := by
  have hnone := h.slotNumbers_of_static hd q
  have hnumbers : n.numbers = [] := (List.append_eq_nil_iff.mp hnone).2
  rw [slotMarks, marks, hnone, hnumbers]

lemma Tail.slotMarks_perm (h : Tail b t start n) (q : ℕ) :
    n.slotMarks q ~ ⟨q, wordSize⟩ :: n.marks := by
  rw [slotMarks, marks, h.slotNumbers_eq, List.map_cons]
  exact List.perm_middle

/-- Where the offset of a value is, if it starts at `start`. -/
lemma Placed.offset_eq (h : Placed b t start n) :
    n.offset = start + if t.isPayload then wordSize else 0 := by
  cases hd : t.isDynamic with
  | false =>
    have hp : ¬ t.isPayload = true := fun hp => by
      rw [AbiType.isPayload_isDynamic hp] at hd
      cases hd
    rw [if_neg hp]
    exact (((placed_static_iff hd).mp h).flat hd).offset_eq
  | true =>
    rcases (placed_dynamic_iff hd).mp h with ⟨hp, -⟩ | - | ⟨hm, -⟩
    · rw [if_pos hp]
      rfl
    · rfl
    · rw [AbiType.isPayload_of_members? hm]
      rfl

/-! ### How long encodings are -/

lemma length_encodeRow (hvs : List.Forall₂ HasType vs ts) :
    (encodeRow ts vs).length = AbiType.rowSize ts + (Part.tails (parts ts vs)).length := by
  rw [encodeRow, Part.layOut, List.length_append, Part.length_slots, slotsSize_parts hvs]

lemma length_encode_pos (ht : t.rowsFilled = true) (hv : v.HasType t) :
    0 < (encode t v).length := by
  have hword : 0 < wordSize := by decide
  induction t using AbiType.induct generalizing v with
  | scalar t hs => rwa [encode_scalar hv hs, length_word hv hs]
  | function => exact (not_hasType_function hv).elim
  | payload t hp =>
    rw [encode_payload hv hp, ofLength, List.length_append, Bytes.length_ofNat]
    omega
  | array t ih =>
    rw [hv.array_inv.2.1, List.length_append, Bytes.length_ofNat]
    omega
  | row t ts hm ih =>
    obtain ⟨hvs, henc, -⟩ := hv.row_inv hm
    obtain ⟨⟨u, us, rfl⟩, hfilled⟩ := AbiType.rowsFilled_members? hm ht
    have hu := AbiType.slotSize_pos (hfilled u (by simp))
    rw [henc, length_encodeRow hvs, AbiType.rowSize_cons]
    omega

/-! ### Rows -/

/-- Of a value that takes the bytes from `lo` to `hi`: what is found lies there and is apart, and
the elements of arrays come in order. -/
structure Tidy (lo hi : Nat) (n : Node) : Prop where
  packs : Packs lo hi n.marks
  ascending : ∀ m ∈ n.preorder, m.Ascending

/-- Whatever is found where the encoding of a value of type `t` stands is tidy. -/
def TidyType (b : Buffer) (t : AbiType) : Prop :=
  ∀ v start n, v.HasType t → b.bytes.Holds start (encode t v) → Placed b t start n →
    Tidy start (start + (encode t v).length) n

lemma Slot.placed_inSlot (hd : t.isDynamic = false) (h : Slot b base t pos n) :
    Placed b t pos n := (placed_static_iff hd).mpr (h.of_static hd)

/-- A pointer in a written row leads to the value. -/
lemma Slot.placed_behind (hd : t.isDynamic = true) (hahead : b.bytes.IndexAt pos ahead)
    (h : Slot b base t pos n) : Placed b t (base + ahead) n := by
  obtain ⟨ahead', hi, -, htail⟩ := (slot_dynamic_iff hd).mp h
  rw [hahead.unique hi]
  exact (placed_dynamic_iff hd).mpr htail

/-- What is found of a row is apart: some of it lies in the slots, and the rest in the tails. -/
lemma Written.packs (h : ∀ t ∈ ts, TidyType b t) (hw : Written b base pos ahead ts vs)
    (hr : Row b base ts pos ns) :
    ∃ front back, marksOf pos ns ~ front ++ back ∧
      Packs pos (pos + AbiType.rowSize ts) front ∧
      Packs (base + ahead) (base + ahead + (Part.tails (parts ts vs)).length) back := by
  induction hw generalizing ns with
  | nil =>
    rw [row_nil_iff.mp hr]
    exact ⟨[], [], .nil, packs_nil, packs_nil⟩
  | @inSlot pos ahead t v ts vs hd hv hholds _ ih =>
    obtain ⟨n, ns, rfl, hslot, hrest⟩ := row_cons_iff.mp hr
    obtain ⟨front, back, hperm, hfront, hback⟩ := ih (fun u hu => h u (by simp [hu])) hrest
    have hn := (h t (by simp) v pos n hv hholds (hslot.placed_inSlot hd)).packs
    rw [length_encode_of_static hd hv] at hn
    refine ⟨n.marks ++ front, back, ?_, ?_, ?_⟩
    · rw [List.append_assoc, ← hslot.slotMarks_of_static hd pos]
      refine (marksOf_cons _ _ _).trans (List.Perm.append_left _ ?_)
      rwa [hslot.type_eq]
    · rw [AbiType.rowSize_cons, ← Nat.add_assoc]
      exact hn.append hfront (by omega) (by omega)
    · simpa only [parts, hd, Part.tails] using hback
  | @behind pos ahead t v ts vs hd hv hahead hholds _ ih =>
    obtain ⟨n, ns, rfl, hslot, hrest⟩ := row_cons_iff.mp hr
    obtain ⟨front, back, hperm, hfront, hback⟩ := ih (fun u hu => h u (by simp [hu])) hrest
    have hplaced := hslot.placed_behind hd hahead
    have hn := (h t (by simp) v (base + ahead) n hv hholds hplaced).packs
    have htail := (placed_dynamic_iff hd).mp hplaced
    refine ⟨⟨pos, wordSize⟩ :: front, n.marks ++ back, ?_, ?_, ?_⟩
    · rw [← hslot.type_eq] at hperm
      calc marksOf pos (n :: ns)
          ~ n.slotMarks pos ++ marksOf (pos + n.type.slotSize) ns := marksOf_cons pos n ns
        _ ~ (⟨pos, wordSize⟩ :: n.marks) ++ (front ++ back) :=
          (htail.slotMarks_perm pos).append hperm
        _ ~ (⟨pos, wordSize⟩ :: front) ++ (n.marks ++ back) :=
          (List.perm_append_comm_assoc _ _ _).cons _
    · have hword := AbiType.slotSize_of_isDynamic hd
      rw [AbiType.rowSize_cons, ← Nat.add_assoc]
      rw [hword] at hfront ⊢
      have hpointer : Packs pos (pos + wordSize) [⟨pos, wordSize⟩] := packs_singleton le_rfl le_rfl
      exact hpointer.append hfront (by omega) (by omega)
    · simp only [parts, hd, Part.tails, List.length_append]
      rw [← Nat.add_assoc] at hback ⊢
      exact hn.append hback (by omega) (by omega)

/-- What is found of a row is found where a value of one of the types stands. -/
lemma Written.exists_placed (hw : Written b base pos ahead ts vs) (hr : Row b base ts pos ns) :
    ∀ n ∈ ns, ∃ t ∈ ts, ∃ v start, v.HasType t ∧ b.bytes.Holds start (encode t v) ∧
      Placed b t start n := by
  induction hw generalizing ns with
  | nil => simp [row_nil_iff.mp hr]
  | @inSlot pos ahead t v ts vs hd hv hholds _ ih =>
    obtain ⟨n, ns, rfl, hslot, hrest⟩ := row_cons_iff.mp hr
    have hn := hslot.placed_inSlot hd
    refine List.forall_mem_cons.mpr ⟨⟨t, by simp, v, pos, hv, hholds, hn⟩, fun m hm => ?_⟩
    obtain ⟨u, hu, hm'⟩ := ih hrest m hm
    exact ⟨u, by simp [hu], hm'⟩
  | @behind pos ahead t v ts vs hd hv hahead hholds _ ih =>
    obtain ⟨n, ns, rfl, hslot, hrest⟩ := row_cons_iff.mp hr
    have hn := hslot.placed_behind hd hahead
    refine List.forall_mem_cons.mpr ⟨⟨t, by simp, v, base + ahead, hv, hholds, hn⟩, fun m hm => ?_⟩
    obtain ⟨u, hu, hm'⟩ := ih hrest m hm
    exact ⟨u, by simp [hu], hm'⟩

/-- The offsets of the nodes increase, from `low` on. -/
structure Climbs (low : Nat) (ns : List Node) : Prop where
  low_le : ∀ n ∈ ns, low ≤ n.offset
  increasing : (ns.map (·.offset)).Pairwise (· < ·)

lemma Climbs.cons {low low' : ℕ} (hn : n.offset = low) (hlow : low < low') (h : Climbs low' ns) :
    Climbs low (n :: ns) where
  low_le m hm := by
    rcases List.mem_cons.mp hm with rfl | hm
    · exact hn.ge
    · exact hlow.le.trans (h.low_le m hm)
  increasing := by
    rw [List.map_cons, List.pairwise_cons]
    refine ⟨fun offset hoffset => ?_, h.increasing⟩
    obtain ⟨m, hm, rfl⟩ := List.mem_map.mp hoffset
    have := h.low_le m hm
    omega

/-- Where values of one type stand in a row, each lies behind those before it. -/
lemma Written.climbs (ht : t.rowsFilled = true) (hw : Written b base pos ahead ts vs)
    (hts : ∀ u ∈ ts, u = t) (hr : Row b base ts pos ns) :
    Climbs ((if t.isDynamic then base + ahead else pos) + if t.isPayload then wordSize else 0)
      ns := by
  induction hw generalizing ns with
  | nil =>
    rw [row_nil_iff.mp hr]
    exact ⟨by simp, .nil⟩
  | @inSlot pos ahead u v ts vs hd hv hholds _ ih =>
    obtain ⟨n, ns, rfl, hslot, hrest⟩ := row_cons_iff.mp hr
    obtain rfl := hts u (by simp)
    have hn := (hslot.placed_inSlot hd).offset_eq
    have hpos := AbiType.slotSize_pos ht
    have hns := ih (fun w hw => hts w (by simp [hw])) hrest
    simp only [hd, Bool.false_eq_true, if_false] at hns ⊢
    exact hns.cons hn (by omega)
  | @behind pos ahead u v ts vs hd hv hahead hholds _ ih =>
    obtain ⟨n, ns, rfl, hslot, hrest⟩ := row_cons_iff.mp hr
    obtain rfl := hts u (by simp)
    have hn := (hslot.placed_behind hd hahead).offset_eq
    have hpos := length_encode_pos ht hv
    have hns := ih (fun w hw => hts w (by simp [hw])) hrest
    simp only [hd, if_true] at hns ⊢
    exact hns.cons hn (by omega)

/-- What is found of an encoded row is apart and lies within the encoding. -/
lemma packs_encodeRow (hb : b.size < offsetBound) (h : ∀ t ∈ ts, TidyType b t)
    (hvs : List.Forall₂ HasType vs ts) (hrow : b.bytes.Holds start (encodeRow ts vs))
    (hr : Row b start ts start ns) :
    Packs start (start + (encodeRow ts vs).length) (marksOf start ns) := by
  obtain ⟨front, back, hperm, hfront, hback⟩ := (written_of_encodeRow hb hvs hrow).packs h hr
  rw [length_encodeRow hvs, ← Nat.add_assoc]
  exact (hfront.append hback (by omega) (by omega)).perm hperm

/-! ### Types -/

lemma tidy_scalar (ht : t.isScalar = true) : TidyType b t := by
  intro v start n hv hholds hplaced
  have hslot := (placed_static_iff (AbiType.isScalar_not_isDynamic ht)).mp hplaced
  obtain ⟨w, -, rfl⟩ := (slot_scalar_iff ht).mp hslot
  rw [encode_scalar hv ht, length_word hv ht]
  have hmarks : (ofWord t start w).marks = [⟨start, wordSize⟩] := by
    rw [marks, numbers_ofWord ht, leaves_of_no_children rfl]
    rfl
  exact ⟨hmarks ▸ packs_singleton le_rfl le_rfl, ascending_of_no_children rfl⟩

lemma tidy_payload (hb : b.size < offsetBound) (ht : t.isPayload = true) : TidyType b t := by
  intro v start n hv hholds hplaced
  have htail := (placed_dynamic_iff (AbiType.isPayload_isDynamic ht)).mp hplaced
  obtain ⟨s, hi, -, -, rfl⟩ := (tail_payload_iff ht).mp htail
  rw [encode_payload hv ht] at hholds ⊢
  have hlen := hi.unique (read_ofLength hb hholds).1
  have hpad := le_padded s.length
  have hmarks : (ofPayload t (start + wordSize) s).marks =
      [⟨start + wordSize, s.length⟩, ⟨start, wordSize⟩] := by
    rw [marks, numbers_ofPayload ht, leaves_of_no_children rfl]
    rfl
  have hend : (ofLength v.payload).length = wordSize + padded s.length := by
    simp only [ofLength, List.length_append, Bytes.length_ofNat, List.length_replicate, ← hlen]
    omega
  have hlength : Packs start (start + wordSize) [⟨start, wordSize⟩] := packs_singleton le_rfl le_rfl
  have hpayload : Packs (start + wordSize) (start + (wordSize + padded s.length))
      [⟨start + wordSize, s.length⟩] := packs_singleton le_rfl (by simp only; omega)
  refine ⟨?_, ascending_of_no_children rfl⟩
  rw [hmarks, hend]
  exact (hlength.append hpayload (by omega) (by omega)).perm (.swap _ _ _)

/-- The nodes of an encoded row are tidy below. -/
lemma Written.ascending (h : ∀ t ∈ ts, TidyType b t) (hw : Written b base pos ahead ts vs)
    (hr : Row b base ts pos ns) : ∀ m ∈ preorderOf ns, m.Ascending := by
  intro m hm
  obtain ⟨c, hc, hmc⟩ := mem_preorderOf.mp hm
  obtain ⟨t, ht, v, start, hv, hholds, hplaced⟩ := hw.exists_placed hr c hc
  exact (h t ht v start c hv hholds hplaced).ascending m hmc

lemma tidy_row (hb : b.size < offsetBound) (hm : t.members? = some ts)
    (ht : t.rowsFilled = true) (h : ∀ u ∈ ts, TidyType b u) : TidyType b t := by
  intro v start n hv hholds hplaced
  obtain ⟨hvs, henc, -⟩ := hv.row_inv hm
  rw [henc] at hholds ⊢
  have hnode : ∃ outOfLine ns, Row b start ts start ns ∧ n = compound t start outOfLine ns := by
    cases hd : t.isDynamic with
    | false => exact ⟨false, (slot_static_row_iff hd hm).mp ((placed_static_iff hd).mp hplaced)⟩
    | true => exact ⟨true, (tail_row_iff hm).mp ((placed_dynamic_iff hd).mp hplaced)⟩
  obtain ⟨outOfLine, ns, hr, rfl⟩ := hnode
  have hw := written_of_encodeRow hb hvs hholds
  refine ⟨?_, ascending_of_below ?_ (hw.ascending h hr)⟩
  · have hmarks : (compound t start outOfLine ns).marks = marksOf start ns := by
      rw [marks, leaves_compound, numbers_row hm, marksOf]
    rw [hmarks]
    exact packs_encodeRow hb h hvs hholds hr
  · rintro u (hu | ⟨k, hu⟩)
    · obtain rfl : t = .array u := hu
      cases hm
    · obtain rfl : t = .fixedArray u k := hu
      cases hm
      have hfilled : u.rowsFilled = true := by
        simp only [AbiType.rowsFilled, Bool.and_eq_true] at ht
        exact ht.2
      exact (hw.climbs hfilled (fun u hu => List.eq_of_mem_replicate hu) hr).increasing

lemma tidy_array (hb : b.size < offsetBound) (ht : t.rowsFilled = true) (h : TidyType b t) :
    TidyType b (.array t) := by
  intro v start n hv hholds hplaced
  obtain ⟨ns, hi, hr, rfl⟩ := tail_array_iff.mp ((placed_dynamic_iff rfl).mp hplaced)
  obtain ⟨hvs, henc, -⟩ := hv.array_inv
  obtain ⟨hindex, hrow⟩ := read_array hb (AbiType.slotSize_pos ht).ne' hv hholds
  rw [hi.unique hindex] at hr
  have htypes : ∀ u ∈ List.replicate v.members.length t, TidyType b u := fun u hu =>
    List.eq_of_mem_replicate hu ▸ h
  have hw := written_of_encodeRow hb hvs hrow
  rw [henc, List.length_append, Bytes.length_ofNat]
  refine ⟨?_, ascending_of_below ?_ (hw.ascending htypes hr)⟩
  · have hcount : Packs start (start + wordSize) [⟨start, wordSize⟩] :=
      packs_singleton le_rfl le_rfl
    have hpacks := packs_encodeRow hb htypes hvs hrow hr
    have hperm : (compound (.array t) start true ns).marks ~
        [⟨start, wordSize⟩] ++ marksOf (start + wordSize) ns := by
      rw [marks, leaves_compound, numbers_array, marksOf, List.map_cons]
      exact List.perm_middle
    rw [← Nat.add_assoc]
    exact (hcount.append hpacks (by omega) (by omega)).perm hperm
  · exact fun _ _ => (hw.climbs ht (fun u hu => List.eq_of_mem_replicate hu) hr).increasing

lemma tidy_of_type (hb : b.size < offsetBound) (ht : t.rowsFilled = true) : TidyType b t := by
  induction t using AbiType.induct with
  | scalar t hs => exact tidy_scalar hs
  | function => exact fun _ _ _ hv => (not_hasType_function hv).elim
  | payload t hp => exact tidy_payload hb hp
  | array t ih => exact tidy_array hb ht (ih ht)
  | row t ts hm ih =>
    exact tidy_row hb hm ht fun u hu => ih u hu ((AbiType.rowsFilled_members? hm ht).2 u hu)

/-- **In what an encoder has written nothing overlaps.** Where no row among the types is empty, the
encoding of values of the types is located under any limits, and in the tree any two leaves are
apart, and so is each leaf from every word that is read for a pointer, a length or a count. The
elements of each array, of any length or of a fixed one, come in order. -/
theorem locate_encodeRow_apart (limits : Limits) (hts : ∀ t ∈ ts, t.rowsFilled = true)
    (hvs : List.Forall₂ HasType vs ts) (hlen : (encodeRow ts vs).length < offsetBound) :
    ∃ tree, (locate { bytes := encodeRow ts vs, limits } ts).1 = .ok tree ∧
      ((leavesOf tree).Pairwise fun l l' =>
        ∀ s, l.span? = some s → ∀ s', l'.span? = some s' → s.Apart s') ∧
      (∀ l ∈ leavesOf tree, ∀ s, l.span? = some s →
        ∀ q ∈ consulted { bytes := encodeRow ts vs, limits } ts, s.Apart ⟨q, wordSize⟩) ∧
      ∀ m ∈ preorderOf tree, ∀ t, (m.type = .array t ∨ ∃ k, m.type = .fixedArray t k) →
        (m.children.map (·.offset)).Pairwise (· < ·) := by
  obtain ⟨tree, hok, -⟩ :=
    locate_encodeRow limits (fun t ht => AbiType.elemsTakeRoom_of_rowsFilled (hts t ht)) hvs hlen
  have hb : Buffer.size { bytes := encodeRow ts vs, limits } < offsetBound := hlen
  obtain ⟨hr, -⟩ := locate_fst_eq_ok_iff.mp hok
  have htidy := fun t ht => tidy_of_type hb (hts t ht)
  have hpacks := packs_encodeRow hb htidy hvs (Bytes.holds_self _) hr
  obtain ⟨hleaves, -, hnumbers⟩ := List.pairwise_append.mp hpacks.apart
  refine ⟨tree, hok, List.pairwise_filterMap.mp hleaves, fun l hl s hs q hq => ?_,
    (written_of_encodeRow hb hvs (Bytes.holds_self _)).ascending htidy hr⟩
  rw [consulted_eq hok] at hq
  exact hnumbers s (List.mem_filterMap.mpr ⟨l, hl, hs⟩) _ (List.mem_map_of_mem hq)

/-- A list of byte strings, and two small numbers. -/
def listed : List AbiType := [.array .bytes, .fixedArray (.uint 8) 2]

def listedValues : List Value :=
  [.array [.bytes [], .bytes [7]], .fixedArray [.uint 8 1, .uint 8 2]]

/-- The empty byte string takes no byte, and yet lies before the other one and its length. -/
theorem listed_apart :
    (∀ t ∈ listed, t.rowsFilled = true) ∧ List.Forall₂ HasType listedValues listed ∧
      (encodeRow listed listedValues).length < offsetBound ∧
      consulted { bytes := encodeRow listed listedValues } listed = [0, 96, 128, 192, 160, 224] ∧
      ∃ tree, (locate { bytes := encodeRow listed listedValues } listed).1 = .ok tree ∧
        ((leavesOf tree).Pairwise fun l l' =>
          ∀ s, l.span? = some s → ∀ s', l'.span? = some s' → s.Apart s') ∧
        (∀ l ∈ leavesOf tree, ∀ s, l.span? = some s → s.Apart ⟨224, wordSize⟩) ∧
        ∀ m ∈ preorderOf tree, m.type = .array .bytes →
          (m.children.map (·.offset)).Pairwise (· < ·) := by
  have hts : ∀ t ∈ listed, t.rowsFilled = true := by decide
  have hvs : List.Forall₂ HasType listedValues listed :=
    .cons (.array (.cons (.bytes _) (.cons (.bytes _) .nil)))
      (.cons (.fixedArray (.cons (.uint (by decide) (by decide))
        (.cons (.uint (by decide) (by decide)) .nil))) .nil)
  have hlen : (encodeRow listed listedValues).length < offsetBound := by decide +kernel
  have hconsulted : consulted { bytes := encodeRow listed listedValues } listed =
      [0, 96, 128, 192, 160, 224] := by decide +kernel
  obtain ⟨tree, hok, hleaves, hnumbers, hordered⟩ := locate_encodeRow_apart {} hts hvs hlen
  rw [hconsulted] at hnumbers
  exact ⟨hts, hvs, hlen, hconsulted, tree, hok, hleaves,
    fun l hl s hs => hnumbers l hl s hs 224 (by decide), fun m hm hm' =>
      hordered m hm .bytes (.inl hm')⟩

end Layout

end AbiSpan
