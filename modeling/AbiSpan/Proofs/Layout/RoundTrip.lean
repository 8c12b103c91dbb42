import AbiSpan.Proofs.Encoding
import AbiSpan.Proofs.Layout.Exact

/-!
Locating what an encoder has written.

Where the encoding of a value stands in a buffer, the value is laid out there, and the node of it
shows it: as many children as there are values inside, leaves that select the words and payloads
in order, and a cost of no more than the bytes that were written. The last of these is why no
guard stops the walk: every byte of an encoding is read at most once.
-/

namespace AbiSpan.Layout

open Node Value

variable {b : Buffer} {base pos start ahead : ℕ} {t : AbiType} {ts : List AbiType} {v : Value}
  {vs : List Value} {n : Node} {ns : List Node}

/-- The node has one child for each value inside, in order, and so on below. -/
inductive Mirrors : Value → Node → Prop
  | intro {v : Value} {n : Node} : List.Forall₂ Mirrors v.members n.children → Mirrors v n

/-- The node mirrors the value, selects all that is in it, and has cost no more than `room`. -/
structure Shows (b : Buffer) (room : Nat) (v : Value) (n : Node) : Prop where
  mirrors : Mirrors v n
  cost_le : n.cost ≤ room
  leaves : n.leaves.map (·.slice? b.bytes) = v.atoms.map some

/-- The same of a row. -/
structure ShowsAll (b : Buffer) (room : Nat) (vs : List Value) (ns : List Node) : Prop where
  mirrors : List.Forall₂ Mirrors vs ns
  cost_le : costOf ns ≤ room
  leaves : (leavesOf ns).map (·.slice? b.bytes) = (atomsOf vs).map some

/-- A value of the type `t` at `start`: in the slot there, or out of line. -/
def Placed (b : Buffer) (t : AbiType) (start : Nat) (n : Node) : Prop :=
  if t.isDynamic then Tail b t start n else Slot b start t start n

lemma placed_static_iff (hd : t.isDynamic = false) :
    Placed b t start n ↔ Slot b start t start n := by
  simp [Placed, hd]

lemma placed_dynamic_iff (hd : t.isDynamic = true) : Placed b t start n ↔ Tail b t start n := by
  simp [Placed, hd]

/-- Wherever the encoding of a value of type `t` stands, its pointer apart, there is a node that
shows the value. -/
def Readable (b : Buffer) (t : AbiType) : Prop :=
  ∀ v start, v.HasType t → b.bytes.Holds start (encode t v) →
    ∃ n, Placed b t start n ∧ Shows b (Part.room ⟨t.isDynamic, encode t v⟩) v n

lemma indexAt_of_holds {k : ℕ} (hk : k < offsetBound)
    (h : b.bytes.Holds pos (Bytes.ofNat wordSize k)) : b.bytes.IndexAt pos k := by
  refine ⟨_, by simpa [Bytes.Holds] using h, Bytes.toNat_ofNat (lt_trans hk ?_), hk⟩
  norm_num [offsetBound, wordSize]

lemma ShowsAll.cons {room rooms : ℕ} (h : Shows b room v n) (hs : ShowsAll b rooms vs ns) :
    ShowsAll b (room + rooms) (v :: vs) (n :: ns) where
  mirrors := .cons h.mirrors hs.mirrors
  cost_le := by
    rw [costOf_cons]
    exact Nat.add_le_add h.cost_le hs.cost_le
  leaves := by
    rw [leavesOf, atomsOf, List.map_append, List.map_append, h.leaves, hs.leaves]

/-! ### Rows -/

/-- A row of values as an encoder writes it: the slots from `pos` on, and the tails from `ahead`
past `base` on, in the order of the slots and without gaps. -/
inductive Written (b : Buffer) (base : Nat) :
    (pos ahead : Nat) → List AbiType → List Value → Prop
  | nil {pos ahead : Nat} : Written b base pos ahead [] []
  | inSlot {pos ahead : Nat} {t : AbiType} {v : Value} {ts : List AbiType} {vs : List Value} :
    t.isDynamic = false → v.HasType t → b.bytes.Holds pos (encode t v) →
      Written b base (pos + t.slotSize) ahead ts vs → Written b base pos ahead (t :: ts) (v :: vs)
  | behind {pos ahead : Nat} {t : AbiType} {v : Value} {ts : List AbiType} {vs : List Value} :
    t.isDynamic = true → v.HasType t → b.bytes.IndexAt pos ahead →
      b.bytes.Holds (base + ahead) (encode t v) →
      Written b base (pos + t.slotSize) (ahead + (encode t v).length) ts vs →
      Written b base pos ahead (t :: ts) (v :: vs)

lemma written_of_holds (hb : b.size < offsetBound) (hvs : List.Forall₂ HasType vs ts)
    (hslots : b.bytes.Holds pos (Part.slots ahead (parts ts vs)))
    (htails : b.bytes.Holds (base + ahead) (Part.tails (parts ts vs))) :
    Written b base pos ahead ts vs := by
  induction hvs generalizing pos ahead with
  | nil => exact .nil
  | @cons v t vs ts hv _ ih =>
    cases hd : t.isDynamic with
    | false =>
      -- the value is its slot, and the tails are those of the rest
      simp only [parts, hd, Part.slots, Part.tails] at hslots htails
      have hrest := hslots.right
      rw [length_encode_of_static hd hv] at hrest
      exact .inSlot hd hv hslots.left (ih hrest htails)
    | true =>
      -- the slot points to the first tail, and the rest have the tails behind it
      simp only [parts, hd, Part.slots, Part.tails] at hslots htails
      have hle : base + ahead ≤ b.size := le_trans (Nat.le_add_right _ _) htails.left.le_length
      have hahead := indexAt_of_holds (lt_of_le_of_lt (by omega) hb) hslots.left
      have hslots' := hslots.right
      have htails' := htails.right
      rw [Bytes.length_ofNat, ← AbiType.slotSize_of_isDynamic hd] at hslots'
      rw [Nat.add_assoc] at htails'
      exact .behind hd hv hahead htails.left (ih hslots' htails')

/-- In an encoded row the tails begin where the slots end. -/
lemma written_of_encodeRow (hb : b.size < offsetBound) (hvs : List.Forall₂ HasType vs ts)
    (hrow : b.bytes.Holds start (encodeRow ts vs)) :
    Written b start start (AbiType.rowSize ts) ts vs := by
  have htails := hrow.right
  rw [Part.length_slots] at htails
  rw [← slotsSize_parts hvs]
  exact written_of_holds hb hvs hrow.left htails

lemma Written.readable (h : ∀ t ∈ ts, Readable b t) (hw : Written b base pos ahead ts vs) :
    ∃ ns, Row b base ts pos ns ∧ ShowsAll b ((parts ts vs).map Part.room).sum vs ns := by
  induction hw with
  | nil => exact ⟨[], .nil, .nil, Nat.zero_le _, rfl⟩
  | @inSlot pos ahead t v ts vs hd hv hholds _ ih =>
    obtain ⟨n, hn, hshow⟩ := h t (by simp) v pos hv hholds
    obtain ⟨ns, hr, hshows⟩ := ih fun u hu => h u (by simp [hu])
    rw [placed_static_iff hd] at hn
    exact ⟨n :: ns, .cons (hn.of_static hd) hr, by simpa [parts] using ShowsAll.cons hshow hshows⟩
  | @behind pos ahead t v ts vs hd hv hahead hholds _ ih =>
    obtain ⟨n, hn, hshow⟩ := h t (by simp) v (base + ahead) hv hholds
    obtain ⟨ns, hr, hshows⟩ := ih fun u hu => h u (by simp [hu])
    rw [placed_dynamic_iff hd] at hn
    have hle : base + ahead ≤ b.size := le_trans (Nat.le_add_right _ _) hholds.le_length
    exact ⟨n :: ns, .cons (.pointer hd hahead hle hn) hr, by
      simpa [parts] using ShowsAll.cons hshow hshows⟩

lemma encodeRow_readable (hb : b.size < offsetBound) (h : ∀ t ∈ ts, Readable b t)
    (hvs : List.Forall₂ HasType vs ts) (hrow : b.bytes.Holds start (encodeRow ts vs)) :
    ∃ ns, Row b start ts start ns ∧ ShowsAll b (encodeRow ts vs).length vs ns := by
  rw [encodeRow, Part.length_layOut]
  exact (written_of_encodeRow hb hvs hrow).readable h

/-! ### Types -/

lemma readable_scalar (ht : t.isScalar = true) : Readable b t := by
  intro v start hv hs
  have hd := AbiType.isScalar_not_isDynamic ht
  rw [encode_scalar hv ht] at hs
  rw [encode_scalar hv ht]
  have hlen := length_word hv ht
  rw [Bytes.Holds, hlen] at hs
  refine ⟨Node.ofWord t start v.word, ?_, ?_, ?_, ?_⟩
  · exact (placed_static_iff hd).mpr (.word ht hs)
  · have hmembers : v.members = [] := by cases hv <;> first | rfl | cases ht
    refine .intro ?_
    rw [hmembers]
    exact .nil
  · simp [cost_ofWord ht, Part.room, hd, hlen]
  · rw [atoms_scalar hv ht, leaves_of_no_children rfl]
    simp [Node.ofWord, slice?, span?, Span.slice?, hs]

/-- What stands where a payload has been written. -/
lemma read_ofLength (hb : b.size < offsetBound) {s : Bytes}
    (h : b.bytes.Holds start (ofLength s)) : b.bytes.IndexAt start s.length ∧
      b.HasRoom (start + wordSize) s.length ∧ b.bytes.Holds (start + wordSize) s := by
  have hpad := le_padded s.length
  have hrest := h.right
  rw [Bytes.length_ofNat] at hrest
  have hroom : b.HasRoom (start + wordSize) s.length := by
    have hle := hrest.le_length
    simp only [List.length_append, List.length_replicate] at hle
    unfold Buffer.HasRoom Buffer.size
    split <;> omega
  have hsize : s.length < offsetBound :=
    lt_of_le_of_lt (le_trans (Nat.le_add_left _ _) hroom.le_size) hb
  exact ⟨indexAt_of_holds hsize h.left, hroom, hrest.left⟩

lemma readable_payload (hb : b.size < offsetBound) (ht : t.isPayload = true) : Readable b t := by
  intro v start hv hs
  have hd := AbiType.isPayload_isDynamic ht
  rw [encode_payload hv ht] at hs
  obtain ⟨hindex, hroom, hslice⟩ := read_ofLength hb hs
  have hpad := le_padded v.payload.length
  rw [encode_payload hv ht, ofLength]
  refine ⟨ofPayload t (start + wordSize) v.payload, ?_, ?_, ?_, ?_⟩
  · exact (placed_dynamic_iff hd).mpr (.payload ht hindex hroom hslice)
  · have hmembers : v.members = [] := by cases hv <;> first | rfl | cases ht
    refine .intro ?_
    rw [hmembers]
    exact .nil
  · rw [cost_ofPayload ht]
    simp only [Part.room, hd, if_true, List.length_append, Bytes.length_ofNat]
    omega
  · rw [atoms_payload hv ht, leaves_of_no_children rfl]
    simpa [ofPayload, slice?, span?, Span.slice?, Bytes.Holds] using hslice

/-- A row type shows its members, in line or not. -/
lemma readable_row (hb : b.size < offsetBound) (hm : t.members? = some ts)
    (h : ∀ u ∈ ts, Readable b u) : Readable b t := by
  intro v start hv hs
  obtain ⟨hvs, henc, hatoms⟩ := hv.row_inv hm
  rw [henc] at hs
  obtain ⟨ns, hr, hshows⟩ := encodeRow_readable hb h hvs hs
  refine ⟨compound t start t.isDynamic ns, ?_, .intro hshows.mirrors, ?_, ?_⟩
  · cases hd : t.isDynamic with
    | false => exact (placed_static_iff hd).mpr (.row hd hm hr)
    | true => exact (placed_dynamic_iff hd).mpr (.row hm hr)
  · rw [cost_row hm, Part.room, henc]
    exact Nat.add_le_add_left hshows.cost_le _
  · rw [leaves_compound, hatoms]
    exact hshows.leaves

/-- Where an array has been written, a row stands behind the count. -/
lemma read_array (hb : b.size < offsetBound) (hroom : t.slotSize ≠ 0) (hv : v.HasType (.array t))
    (h : b.bytes.Holds start (encode (.array t) v)) :
    b.bytes.IndexAt start v.members.length ∧ b.bytes.Holds (start + wordSize)
      (encodeRow (List.replicate v.members.length t) v.members) := by
  obtain ⟨hvs, henc, -⟩ := hv.array_inv
  rw [henc] at h
  have hrow := h.right
  rw [Bytes.length_ofNat] at hrow
  have hcount : v.members.length < offsetBound := by
    -- the slots of the elements are in the buffer, and each takes a byte or more
    have hle := hrow.left.le_length
    rw [Part.length_slots, slotsSize_parts hvs, AbiType.rowSize_replicate] at hle
    have := Nat.le_mul_of_pos_right v.members.length (Nat.pos_of_ne_zero hroom)
    unfold Buffer.size at hb
    omega
  exact ⟨indexAt_of_holds hcount h.left, hrow⟩

lemma readable_array (hb : b.size < offsetBound) (hroom : t.slotSize ≠ 0) (h : Readable b t) :
    Readable b (.array t) := by
  intro v start hv hs
  obtain ⟨hvs, henc, hatoms⟩ := hv.array_inv
  obtain ⟨hindex, hrow⟩ := read_array hb hroom hv hs
  obtain ⟨ns, hr, hshows⟩ := encodeRow_readable hb
    (fun u hu => List.eq_of_mem_replicate hu ▸ h) hvs hrow
  refine ⟨compound (.array t) start true ns, ?_, .intro hshows.mirrors, ?_, ?_⟩
  · exact (placed_dynamic_iff rfl).mpr (.array hindex hr)
  · have hle := hshows.cost_le
    rw [cost_array, Part.room, henc, List.length_append, Bytes.length_ofNat]
    exact Nat.add_le_add_left (Nat.add_le_add_left hle _) _
  · rw [leaves_compound, hatoms]
    exact hshows.leaves

lemma readable_of_type (hb : b.size < offsetBound) (ht : t.elemsTakeRoom = true) :
    Readable b t := by
  induction t using AbiType.induct with
  | scalar t hs => exact readable_scalar hs
  | function => exact fun v _ hv => (not_hasType_function hv).elim
  | payload t hp => exact readable_payload hb hp
  | array t ih =>
    simp only [AbiType.elemsTakeRoom, Bool.and_eq_true, bne_iff_ne] at ht
    exact readable_array hb ht.1 (ih ht.2)
  | row t ts hm ih =>
    exact readable_row hb hm fun u hu => ih u hu (AbiType.elemsTakeRoom_of_mem_members? hm ht u hu)

/-- **Round trip.** Under any limits, the encoding of values of the types is located: the tree
has one node for each value, and the leaves select the word of every scalar and the payload of
every byte string and text, in order. -/
theorem locate_encodeRow (limits : Limits) (hts : ∀ t ∈ ts, t.elemsTakeRoom = true)
    (hvs : List.Forall₂ HasType vs ts) (hlen : (encodeRow ts vs).length < offsetBound) :
    ∃ tree, (locate { bytes := encodeRow ts vs, limits } ts).1 = .ok tree ∧
      List.Forall₂ Mirrors vs tree ∧
      (leavesOf tree).map (·.slice? (encodeRow ts vs)) = (atomsOf vs).map some := by
  have hb : Buffer.size { bytes := encodeRow ts vs, limits } < offsetBound := hlen
  obtain ⟨tree, hr, hshows⟩ := encodeRow_readable hb
    (fun t ht => readable_of_type hb (hts t ht)) hvs (Bytes.holds_self _)
  refine ⟨tree, locate_fst_eq_ok_iff.mpr ⟨hr, ?_, ?_⟩, hshows.mirrors, hshows.leaves⟩
  · exact hr.allFit hb hts (Nat.zero_le _)
  · exact affords_of_cost_le hshows.cost_le

/-- A truth, and a list of numbered byte strings. -/
def numbered : List AbiType := [.bool, .array (.tuple [.uint 8, .bytes])]

def numberedValues : List Value := [.bool true, .array [.tuple [.uint 8 5, .bytes [1, 2, 3]]]]

/-- The guard lets no byte be read twice here. -/
theorem locate_numbered :
    (∀ t ∈ numbered, t.elemsTakeRoom = true) ∧ List.Forall₂ HasType numberedValues numbered ∧
      (encodeRow numbered numberedValues).length < offsetBound ∧
      ∃ tree, (locate ⟨encodeRow numbered numberedValues, { maxInflation := 1 }⟩ numbered).1 =
          .ok tree ∧
        List.Forall₂ Mirrors numberedValues tree ∧
        (leavesOf tree).map (·.slice? (encodeRow numbered numberedValues)) =
          [some (Bytes.ofNat wordSize 1), some (Bytes.ofNat wordSize 5), some [1, 2, 3]] := by
  have hts : ∀ t ∈ numbered, t.elemsTakeRoom = true := by decide
  have hvs : List.Forall₂ HasType numberedValues numbered :=
    .cons (.bool true) (.cons (.array (.cons (.tuple (.cons (.uint (by decide) (by decide))
      (.cons (.bytes _) .nil))) .nil)) .nil)
  have hlen : (encodeRow numbered numberedValues).length < offsetBound := by
    decide +kernel
  obtain ⟨tree, hok, hmirrors, hleaves⟩ := locate_encodeRow { maxInflation := 1 } hts hvs hlen
  exact ⟨hts, hvs, hlen, tree, hok, hmirrors, hleaves⟩

end AbiSpan.Layout
