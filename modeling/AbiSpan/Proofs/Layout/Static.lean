import AbiSpan.Proofs.Layout.Exact

/-!
What the types alone decide.

A static value takes so many words on end, one for each scalar in it, and a dynamic one takes a word
for its pointer, whatever that points to. So where the static fields of a row lie is known before
the bytes are. Where all fields are static nothing but the length of the buffer is left to ask: each
byte is read once at most, so that no guard can stop the walk.
-/

namespace AbiSpan

namespace AbiType

/-! ### Words -/

mutual

/-- How many words the slot of a type takes: one for a pointer, or one for each scalar of a static
value. -/
def words : AbiType → Nat
  | .fixedArray t n => if t.isDynamic then 1 else n * t.words
  | .tuple ts => if anyDynamic ts then 1 else wordsOf ts
  | _ => 1

def wordsOf : List AbiType → Nat
  | [] => 0
  | t :: ts => t.words + wordsOf ts

end

mutual

theorem slotSize_eq_words : ∀ t : AbiType, t.slotSize = t.words * wordSize
  | .fixedArray t n => by
    rw [slotSize, words]
    split
    · rw [Nat.one_mul]
    · rw [slotSize_eq_words t, Nat.mul_assoc]
  | .tuple ts => by
    rw [slotSize, words]
    split
    · rw [Nat.one_mul]
    · exact rowSize_eq_words ts
  | .bool | .int _ | .uint _ | .fixedBytes _ | .address | .function | .bytes | .string
  | .array _ => (Nat.one_mul _).symm

theorem rowSize_eq_words : ∀ ts : List AbiType, rowSize ts = wordsOf ts * wordSize
  | [] => (Nat.zero_mul _).symm
  | t :: ts => by
    rw [rowSize_cons, slotSize_eq_words t, rowSize_eq_words ts, wordsOf, Nat.add_mul]

end

lemma words_of_isScalar {t : AbiType} (h : t.isScalar = true) : t.words = 1 := by
  cases t <;> first | rfl | cases h

lemma words_of_members? {t : AbiType} {ts : List AbiType} (h : t.members? = some ts)
    (hs : t.isDynamic = false) : t.words = wordsOf ts := by
  have hsize := slotSize_of_members? h hs
  rw [slotSize_eq_words, rowSize_eq_words] at hsize
  exact Nat.eq_of_mul_eq_mul_right (by decide) hsize

/-! ### The function type -/

mutual

/-- The function type is the type itself or occurs in it, at any depth. -/
def usesFunction : AbiType → Bool
  | .function => true
  | .array t => t.usesFunction
  | .fixedArray t _ => t.usesFunction
  | .tuple ts => anyUsesFunction ts
  | _ => false

def anyUsesFunction : List AbiType → Bool
  | [] => false
  | t :: ts => t.usesFunction || anyUsesFunction ts

end

lemma anyUsesFunction_eq_any (ts : List AbiType) : anyUsesFunction ts = ts.any usesFunction := by
  induction ts with
  | nil => rfl
  | cons t ts ih => simp [anyUsesFunction, ih]

lemma usesFunction_of_mem_members? {t : AbiType} {ts : List AbiType} (h : t.members? = some ts)
    (ht : t.usesFunction = false) : ∀ u ∈ ts, u.usesFunction = false := by
  intro u hu
  cases t with
  | fixedArray t n =>
    cases h
    rw [List.eq_of_mem_replicate hu]
    simpa [usesFunction] using ht
  | tuple ts =>
    cases h
    simp only [usesFunction, anyUsesFunction_eq_any, List.any_eq_false] at ht
    simpa using ht u hu
  | _ => cases h

/-- Induction on a static type. -/
@[elab_as_elim]
theorem induct_static {P : ∀ t : AbiType, t.isDynamic = false → Prop}
    (scalar : ∀ t (h : t.isScalar = true), P t (isScalar_not_isDynamic h))
    (function : P .function rfl)
    (row : ∀ t ts (hm : t.members? = some ts) (hd : t.isDynamic = false),
      (∀ u (hu : u ∈ ts), P u (isDynamic_of_mem_members? hm hd u hu)) → P t hd)
    (t : AbiType) (hd : t.isDynamic = false) : P t hd := by
  induction t using AbiType.induct with
  | scalar t h => exact scalar t h
  | function => exact function
  | payload t h =>
    rw [isPayload_isDynamic h] at hd
    cases hd
  | array t ih => cases hd
  | row t ts hm ih => exact row t ts hm hd fun u hu => ih u hu _

end AbiType

/-! ### Words on end -/

/-- The ranges of so many words on end, the first of them at `pos`. -/
def Span.run (pos count : Nat) : List Span :=
  (List.range count).map fun i => ⟨pos + i * wordSize, wordSize⟩

@[simp] lemma Span.run_zero (pos : ℕ) : run pos 0 = [] := rfl

@[simp] lemma Span.run_one (pos : ℕ) : run pos 1 = [⟨pos, wordSize⟩] := by
  simp [run]

lemma Span.run_add (pos m n : ℕ) : run pos (m + n) = run pos m ++ run (pos + m * wordSize) n := by
  simp only [run, List.range_add, List.map_append, List.map_map]
  congr 2
  funext i
  simp [Nat.add_mul, Nat.add_assoc]

namespace Layout

open Node

variable {b : Buffer} {base pos : ℕ} {t : AbiType} {ts : List AbiType} {n : Node} {ns : List Node}

/-! ### Static values -/

/-- The node of a static value at `pos`: each of its words is the range of a scalar, and has been
read once, and there is no number in it that might not fit. -/
structure Flat (t : AbiType) (pos : Nat) (n : Node) : Prop where
  offset_eq : n.offset = pos
  spans : n.leaves.map span? = (Span.run pos t.words).map some
  scalars : ∀ l ∈ n.leaves, l.type.isScalar = true
  cost_eq : n.cost = t.slotSize
  fits : ∀ size, n.AllFit size

/-- The same of a row of static values. -/
structure FlatRow (ts : List AbiType) (pos : Nat) (ns : List Node) : Prop where
  spans : (leavesOf ns).map span? = (Span.run pos (AbiType.wordsOf ts)).map some
  scalars : ∀ l ∈ leavesOf ns, l.type.isScalar = true
  cost_eq : costOf ns = AbiType.rowSize ts
  fits : ∀ n ∈ ns, ∀ size, n.AllFit size

lemma flatRow_nil : FlatRow [] pos [] where
  spans := rfl
  scalars := by simp [leavesOf]
  cost_eq := rfl
  fits := by simp

lemma Flat.cons (h : Flat t pos n) (hs : FlatRow ts (pos + t.slotSize) ns) :
    FlatRow (t :: ts) pos (n :: ns) where
  spans := by
    rw [leavesOf, List.map_append, h.spans, hs.spans, AbiType.wordsOf, Span.run_add,
      List.map_append, AbiType.slotSize_eq_words]
  scalars l hl := by
    rw [leavesOf] at hl
    exact (List.mem_append.mp hl).elim (h.scalars l) (hs.scalars l)
  cost_eq := by rw [costOf_cons, h.cost_eq, hs.cost_eq, AbiType.rowSize_cons]
  fits m hm := by
    rcases List.mem_cons.mp hm with rfl | hm'
    · exact h.fits
    · exact hs.fits m hm'

lemma Row.flat_of_slots (hslot : ∀ t ∈ ts, ∀ {base pos n}, Slot b base t pos n → Flat t pos n)
    (h : Row b base ts pos ns) : FlatRow ts pos ns := by
  induction ts generalizing pos ns with
  | nil =>
    rw [row_nil_iff.mp h]
    exact flatRow_nil
  | cons t ts ih =>
    obtain ⟨n, ns', rfl, hn, hns⟩ := row_cons_iff.mp h
    exact (hslot t (by simp) hn).cons (ih (fun u hu => hslot u (by simp [hu])) hns)

lemma flat_ofWord (ht : t.isScalar = true) (pos : ℕ) (w : Bytes) : Flat t pos (ofWord t pos w) where
  offset_eq := rfl
  spans := by
    rw [AbiType.words_of_isScalar ht, Span.run_one]
    rfl
  scalars l hl := by
    rw [leaves_of_no_children rfl] at hl
    simp only [ofWord, Option.isSome_some, if_true, List.mem_singleton] at hl
    rw [hl]
    exact ht
  cost_eq := by rw [cost_ofWord ht, AbiType.slotSize_of_isScalar ht]
  fits := allFit_ofWord ht w

lemma FlatRow.row (hm : t.members? = some ts) (hd : t.isDynamic = false) (h : FlatRow ts pos ns) :
    Flat t pos (compound t pos false ns) where
  offset_eq := rfl
  spans := by rw [leaves_compound, h.spans, AbiType.words_of_members? hm hd]
  scalars := by
    rw [leaves_compound]
    exact h.scalars
  cost_eq := by
    rw [cost_row hm, h.cost_eq, AbiType.slotSize_of_members? hm hd]
    simp
  fits size := (allFit_row hm).mpr fun n hn => h.fits n hn size

lemma Slot.flat (hd : t.isDynamic = false) (h : Slot b base t pos n) : Flat t pos n := by
  induction t, hd using AbiType.induct_static generalizing base pos n with
  | scalar t ht =>
    obtain ⟨w, -, rfl⟩ := (slot_scalar_iff ht).mp h
    exact flat_ofWord ht pos w
  | function => exact (not_slot_function h).elim
  | row t ts hm hd ih =>
    obtain ⟨ns, hr, rfl⟩ := (slot_static_row_iff hd hm).mp h
    exact (hr.flat_of_slots fun u hu _ _ _ => ih u hu).row hm hd

/-! ### Static values in a buffer that is long enough -/

lemma exists_row_of_slots (base pos : ℕ) (hslot : ∀ t ∈ ts, ∀ q, q + t.slotSize ≤ b.size →
    ∃ n, Slot b base t q n) (hle : pos + AbiType.rowSize ts ≤ b.size) :
    ∃ ns, Row b base ts pos ns := by
  induction ts generalizing pos with
  | nil => exact ⟨[], .nil⟩
  | cons t ts ih =>
    rw [AbiType.rowSize_cons, ← Nat.add_assoc] at hle
    obtain ⟨n, hn⟩ := hslot t (by simp) pos (by omega)
    obtain ⟨ns, hns⟩ := ih _ (fun u hu => hslot u (by simp [hu])) hle
    exact ⟨n :: ns, .cons hn hns⟩

/-- A static value is laid out wherever there is room for its slot. -/
lemma exists_slot (base pos : ℕ) (hd : t.isDynamic = false) (hf : t.usesFunction = false)
    (hle : pos + t.slotSize ≤ b.size) : ∃ n, Slot b base t pos n := by
  induction t, hd using AbiType.induct_static generalizing base pos with
  | scalar t ht =>
    rw [AbiType.slotSize_of_isScalar ht] at hle
    exact ⟨_, .word ht (Bytes.slice?_eq_some_iff.mpr ⟨hle, rfl⟩)⟩
  | function => cases hf
  | row t ts hm hd ih =>
    have hfs := AbiType.usesFunction_of_mem_members? hm hf
    rw [AbiType.slotSize_of_members? hm hd] at hle
    obtain ⟨ns, hr⟩ :=
      exists_row_of_slots pos pos (fun u hu q => ih u hu pos q (hfs u hu)) hle
    exact ⟨_, .row hd hm hr⟩

/-! ### Fields -/

/-- **The static part of a layout is fixed by the types.** In whatever is found, each static field
lies behind the words of the fields before it, and its leaves are its scalars, one a word and on
end. Where all types are static and none of them uses the function type, the fields are found,
under any limits, if and only if the buffer has room for their words, and the leaves are these
words. -/
theorem locate_static (b : Buffer) (ts : List AbiType) :
    (∀ ns, (locate b ts).1 = .ok ns → ∀ i t, ts[i]? = some t → t.isDynamic = false →
      ∃ n, ns[i]? = some n ∧ n.offset = AbiType.wordsOf (ts.take i) * wordSize ∧
        n.leaves.map span? = (Span.run n.offset t.words).map some ∧
        ∀ l ∈ n.leaves, l.type.isScalar = true) ∧
    ((∀ t ∈ ts, t.isDynamic = false ∧ t.usesFunction = false) →
      ((∃ ns, (locate b ts).1 = .ok ns) ↔ AbiType.wordsOf ts * wordSize ≤ b.size) ∧
      ∀ ns, (locate b ts).1 = .ok ns →
        (leavesOf ns).map span? = (Span.run 0 (AbiType.wordsOf ts)).map some ∧
          ∀ l ∈ leavesOf ns, l.type.isScalar = true) := by
  refine ⟨fun ns h i t hi hd => ?_, fun hts => ?_⟩
  · obtain ⟨hrow, -⟩ := locate_fst_eq_ok_iff.mp h
    obtain ⟨n, hn, hslot⟩ := hrow.slot_at hi
    rw [Nat.zero_add, AbiType.rowSize_eq_words] at hslot
    have hflat := hslot.flat hd
    refine ⟨n, hn, hflat.offset_eq, ?_, hflat.scalars⟩
    rw [hflat.offset_eq]
    exact hflat.spans
  · have hflat {ns : List Node} (hrow : Row b 0 ts 0 ns) : FlatRow ts 0 ns :=
      hrow.flat_of_slots fun t ht _ _ _ => Slot.flat (hts t ht).1
    rw [← AbiType.rowSize_eq_words]
    refine ⟨⟨fun h => ?_, fun hle => ?_⟩, fun ns h => ?_⟩
    · obtain ⟨ns, hns⟩ := h
      obtain ⟨hrow, -⟩ := locate_fst_eq_ok_iff.mp hns
      have hle := hrow.le_size (Nat.zero_le _)
      rwa [Nat.zero_add] at hle
    · have hslot : ∀ t ∈ ts, ∀ q, q + t.slotSize ≤ b.size → ∃ n, Slot b 0 t q n := fun t ht q =>
        exists_slot 0 q (hts t ht).1 (hts t ht).2
      obtain ⟨ns, hrow⟩ := exists_row_of_slots 0 0 hslot (by omega)
      refine ⟨ns, locate_fst_eq_ok_iff.mpr ⟨hrow, fun n hn => (hflat hrow).fits n hn _, ?_⟩⟩
      exact affords_of_cost_le (by rwa [(hflat hrow).cost_eq])
    · obtain ⟨hrow, -⟩ := locate_fst_eq_ok_iff.mp h
      exact ⟨(hflat hrow).spans, (hflat hrow).scalars⟩

/-- Two flags with their number. -/
def flags : AbiType := .tuple [.uint 8, .fixedArray .bool 2]

/-- The flags and the address lie beside a byte string as they would beside any other; by themselves
they take four words, and the strictest guard lets them pass. -/
theorem flags_static :
    (∃ ns, (locate { bytes := List.replicate 160 0 } [flags, .bytes, .address]).1 = .ok ns ∧
      (∃ n, ns[0]? = some n ∧ n.leaves.map span? = [some ⟨0, 32⟩, some ⟨32, 32⟩, some ⟨64, 32⟩]) ∧
      ∃ n, ns[2]? = some n ∧ n.offset = 128) ∧
    (∀ t ∈ [flags, .address], t.isDynamic = false ∧ t.usesFunction = false) ∧
    (∃ ns, (locate ⟨List.replicate 128 0, { maxInflation := 1 }⟩ [flags, .address]).1 = .ok ns) ∧
    ¬ ∃ ns, (locate ⟨List.replicate 127 0, { maxInflation := 1 }⟩ [flags, .address]).1 =
      .ok ns := by
  have hts : ∀ t ∈ [flags, .address], t.isDynamic = false ∧ t.usesFunction = false := by decide
  have hiff (bytes : Bytes) := ((locate_static ⟨bytes, { maxInflation := 1 }⟩
    [flags, .address]).2 hts).1
  have hfound : (locate { bytes := List.replicate 160 0 }
      [flags, .bytes, .address]).1.toOption.isSome = true := by decide +kernel
  obtain ⟨ns, hns⟩ := Option.isSome_iff_exists.mp hfound
  replace hns := eq_ok_of_toOption hns
  have hfields := (locate_static _ _).1 ns hns
  refine ⟨⟨ns, hns, ?_, ?_⟩, hts, (hiff _).mpr (by decide +kernel),
    fun h => absurd ((hiff _).mp h) (by decide +kernel)⟩
  · obtain ⟨n, hn, hoffset, hspans, -⟩ := hfields 0 flags rfl rfl
    rw [hoffset] at hspans
    exact ⟨n, hn, hspans⟩
  · obtain ⟨n, hn, hoffset, -⟩ := hfields 2 .address rfl rfl
    exact ⟨n, hn, hoffset⟩

end Layout

end AbiSpan
