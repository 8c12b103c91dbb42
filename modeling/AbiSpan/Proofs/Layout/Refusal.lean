import AbiSpan.Proofs.Layout.Kept

/-!
Which schemas are refused.

A walk refuses the function type where it comes upon it, and not before. So a schema is refused for
itself, whatever the bytes are, if a value of it cannot be without a function: one that is a field,
or a member, or one of so many elements. An array of any length may be empty, and then nothing is
asked of what its elements would be. A buffer of zeros has no array but empty ones, so it is
accepted by every other schema, once it is long enough.
-/

namespace AbiSpan

namespace AbiType

variable {t : AbiType} {ts : List AbiType}

mutual

/-- Every value of the type holds one of the function type. -/
def demandsFunction : AbiType → Bool
  | .function => true
  | .fixedArray t n => n != 0 && t.demandsFunction
  | .tuple ts => anyDemandsFunction ts
  | _ => false

def anyDemandsFunction : List AbiType → Bool
  | [] => false
  | t :: ts => t.demandsFunction || anyDemandsFunction ts

end

lemma anyDemandsFunction_eq_any (ts : List AbiType) :
    anyDemandsFunction ts = ts.any demandsFunction := by
  induction ts with
  | nil => rfl
  | cons t ts ih => simp [anyDemandsFunction, ih]

lemma demandsFunction_of_members? (hm : t.members? = some ts) :
    t.demandsFunction = true ↔ ∃ u ∈ ts, u.demandsFunction = true := by
  cases t with
  | fixedArray t n =>
    cases hm
    simp [demandsFunction]
  | tuple ts =>
    cases hm
    simp [demandsFunction, anyDemandsFunction_eq_any]
  | _ => cases hm

lemma isScalar_not_demandsFunction (h : t.isScalar = true) : t.demandsFunction = false := by
  cases t <;> first | rfl | cases h

lemma isPayload_not_demandsFunction (h : t.isPayload = true) : t.demandsFunction = false := by
  cases t <;> first | rfl | cases h

lemma isScalar_not_usesFunction (h : t.isScalar = true) : t.usesFunction = false := by
  cases t <;> first | rfl | cases h

lemma isPayload_not_usesFunction (h : t.isPayload = true) : t.usesFunction = false := by
  cases t <;> first | rfl | cases h

/-- Where a row of members uses the function type, one of them does, unless there are none. -/
lemma exists_member_of_usesFunction (hm : t.members? = some ts) (h : t.usesFunction = true)
    (hne : ts ≠ []) : ∃ u ∈ ts, u.usesFunction = true := by
  obtain ⟨u, hu⟩ := List.exists_mem_of_ne_nil ts hne
  cases t with
  | fixedArray t n =>
    cases hm
    refine ⟨u, hu, ?_⟩
    rw [List.eq_of_mem_replicate hu]
    exact h
  | tuple ts =>
    cases hm
    rw [usesFunction, anyUsesFunction_eq_any, List.any_eq_true] at h
    exact h
  | _ => cases hm

end AbiType

/-- So many zeros. -/
def Buffer.blank (limits : Limits) (size : Nat) : Buffer := ⟨List.replicate size 0, limits⟩

@[simp] lemma Buffer.size_blank (limits : Limits) (size : ℕ) : (blank limits size).size = size :=
  List.length_replicate

lemma Bytes.toNat_replicate_zero (n : ℕ) : toNat (List.replicate n 0) = 0 := by
  induction n with
  | zero => rfl
  | succ n ih =>
    rw [List.replicate_succ', toNat_snoc, ih]
    rfl

lemma Bytes.slice?_replicate {n pos size : ℕ} (h : pos + size ≤ n) (x : UInt8) :
    slice? (List.replicate n x) pos size = some (List.replicate size x) := by
  rw [slice?_eq_some_iff, List.length_replicate, List.drop_replicate, List.take_replicate,
    Nat.min_eq_left (by omega)]
  exact ⟨h, rfl⟩

lemma Bytes.indexAt_blank {n pos : ℕ} (h : pos + wordSize ≤ n) :
    IndexAt (List.replicate n 0) pos 0 :=
  ⟨_, slice?_replicate h 0, toNat_replicate_zero _, by decide⟩

namespace Layout

open Node Reading

variable {b : Buffer} {limits : Limits} {base pos : ℕ} {t : AbiType} {ts : List AbiType} {n : Node}
  {ns : List Node}

/-! ### Types that are refused everywhere -/

lemma not_slot_of_demandsFunction (h : t.demandsFunction = true) : ¬ Slot b base t pos n := by
  induction t using AbiType.induct generalizing base pos n with
  | scalar t ht =>
    rw [AbiType.isScalar_not_demandsFunction ht] at h
    cases h
  | function => exact not_slot_function
  | payload t ht =>
    rw [AbiType.isPayload_not_demandsFunction ht] at h
    cases h
  | array t ih => cases h
  | row t ts hm ih =>
    obtain ⟨u, hu, hdemands⟩ := (AbiType.demandsFunction_of_members? hm).mp h
    obtain ⟨i, hi⟩ := List.getElem?_of_mem hu
    intro hslot
    cases hd : t.isDynamic with
    | false =>
      obtain ⟨ns, hrow, -⟩ := (slot_static_row_iff hd hm).mp hslot
      obtain ⟨m, -, hm⟩ := hrow.slot_at hi
      exact ih u hu hdemands hm
    | true =>
      obtain ⟨ahead, -, -, htail⟩ := (slot_dynamic_iff hd).mp hslot
      obtain ⟨ns, hrow, -⟩ := (tail_row_iff hm).mp htail
      obtain ⟨m, -, hm⟩ := hrow.slot_at hi
      exact ih u hu hdemands hm

lemma not_row_of_demandsFunction (h : ∃ t ∈ ts, t.demandsFunction = true) :
    ¬ Row b base ts pos ns := by
  obtain ⟨t, ht, hdemands⟩ := h
  obtain ⟨i, hi⟩ := List.getElem?_of_mem ht
  intro hrow
  obtain ⟨n, -, hslot⟩ := hrow.slot_at hi
  exact not_slot_of_demandsFunction hdemands hslot

/-! ### Zeros -/

/-- With so much room ahead, a value of the type is laid out in zeros, and costs no more. A pointer
there leads back to where it counts from, so this must be the start of the buffer. -/
def BlankSlot (limits : Limits) (t : AbiType) (room : Nat) : Prop :=
  ∀ size base pos, (t.isDynamic = true → base = 0) → pos + room ≤ size →
    ∃ n, Slot (.blank limits size) base t pos n ∧ n.cost ≤ room ∧ n.AllFit size

/-- The same of a row of values. -/
def BlankRow (limits : Limits) (ts : List AbiType) (room : Nat) : Prop :=
  ∀ size base pos, ((∃ t ∈ ts, t.isDynamic = true) → base = 0) → pos + room ≤ size →
    ∃ ns, Row (.blank limits size) base ts pos ns ∧ costOf ns ≤ room ∧ ∀ n ∈ ns, n.AllFit size

lemma exists_blankRow (h : ∀ t ∈ ts, ∃ room, BlankSlot limits t room) :
    ∃ room, BlankRow limits ts room := by
  induction ts with
  | nil => exact ⟨0, fun _ _ _ _ _ => ⟨[], .nil, Nat.le_refl _, by simp⟩⟩
  | cons t ts ih =>
    obtain ⟨room, hslot⟩ := h t (by simp)
    obtain ⟨rest, hrow⟩ := ih fun u hu => h u (by simp [hu])
    refine ⟨room + t.slotSize + rest, fun size base pos hbase hle => ?_⟩
    obtain ⟨n, hn, hcost, hfit⟩ := hslot size base pos (fun hd => hbase ⟨t, by simp, hd⟩) (by omega)
    obtain ⟨ns, hns, hcosts, hfits⟩ := hrow size base (pos + t.slotSize)
      (fun ⟨u, hu, hd⟩ => hbase ⟨u, by simp [hu], hd⟩) (by omega)
    refine ⟨n :: ns, .cons hn hns, by rw [costOf_cons]; omega, ?_⟩
    exact List.forall_mem_cons.mpr ⟨hfit, hfits⟩

lemma BlankRow.slot (hm : t.members? = some ts) {room : ℕ} (h : BlankRow limits ts room) :
    BlankSlot limits t (wordSize + room) := by
  intro size base pos hbase hle
  cases hd : t.isDynamic with
  | false =>
    have hds := AbiType.isDynamic_of_mem_members? hm hd
    obtain ⟨ns, hrow, hcost, hfit⟩ := h size pos pos
      (fun ⟨u, hu, hu'⟩ => absurd hu' (by rw [hds u hu]; decide)) (by omega)
    refine ⟨_, .row hd hm hrow, ?_, (allFit_row hm).mpr hfit⟩
    rw [cost_row hm, if_neg (by decide)]
    omega
  | true =>
    obtain rfl := hbase hd
    obtain ⟨ns, hrow, hcost, hfit⟩ := h size 0 0 (fun _ => rfl) (by omega)
    refine ⟨_, .pointer hd (Bytes.indexAt_blank (by omega)) (Nat.zero_le _) (.row hm hrow), ?_,
      (allFit_row hm).mpr hfit⟩
    rw [cost_row hm, if_pos rfl]
    omega

/-- A type that does not demand a function has a value of zeros. -/
lemma exists_blankSlot (h : t.demandsFunction = false) : ∃ room, BlankSlot limits t room := by
  induction t using AbiType.induct with
  | scalar t ht =>
    refine ⟨wordSize, fun size base pos _ hle => ?_⟩
    refine ⟨_, .word ht (Bytes.slice?_replicate hle 0), ?_, allFit_ofWord ht _ _⟩
    exact (cost_ofWord ht _).le
  | function => cases h
  | payload t ht =>
    have hd := AbiType.isPayload_isDynamic ht
    refine ⟨wordSize + wordSize, fun size base pos hbase hle => ?_⟩
    obtain rfl := hbase hd
    have hroom : (Buffer.blank limits size).HasRoom (0 + wordSize) 0 := by
      unfold Buffer.HasRoom
      rw [Buffer.size_blank, show padded 0 = 0 from rfl, ite_self]
      omega
    have htail : Tail (.blank limits size) t 0 (.ofPayload t (0 + wordSize) []) :=
      .payload ht (Bytes.indexAt_blank (by omega)) hroom
        (Bytes.slice?_replicate (by rw [List.length_nil]; omega) 0)
    refine ⟨_, .pointer hd (Bytes.indexAt_blank (by omega)) (Nat.zero_le _) htail, ?_,
      (allFit_ofPayload ht _ _).mpr (by decide)⟩
    exact (cost_ofPayload ht _).le
  | array t ih =>
    -- the array is empty, so its elements need not be of a type that has values
    refine ⟨wordSize + wordSize, fun size base pos hbase hle => ?_⟩
    obtain rfl := hbase rfl
    have htail : Tail (.blank limits size) (.array t) 0 (compound (.array t) 0 true []) :=
      .array (Bytes.indexAt_blank (by omega)) .nil
    refine ⟨_, .pointer rfl (Bytes.indexAt_blank (by omega)) (Nat.zero_le _) htail, ?_,
      allFit_array.mpr ⟨?_, fun _ => by decide, by simp⟩⟩
    · rw [cost_array]
      rfl
    · rw [List.length_nil]
      omega
  | row t ts hm ih =>
    obtain ⟨room, hrow⟩ := exists_blankRow fun u hu => ih u hu <| by
      rw [← Bool.not_eq_true] at h ⊢
      exact fun hdemands => h ((AbiType.demandsFunction_of_members? hm).mpr ⟨u, hu, hdemands⟩)
    exact ⟨_, hrow.slot hm⟩

/-- A schema whose types do not demand a function accepts zeros, under any limits. -/
lemma exists_locate_blank (limits : Limits) (h : ∀ t ∈ ts, t.demandsFunction = false) :
    ∃ size ns, (locate (.blank limits size) ts).1 = .ok ns := by
  obtain ⟨room, hrow⟩ : ∃ room, BlankRow limits ts room :=
    exists_blankRow fun t ht => exists_blankSlot (h t ht)
  obtain ⟨ns, hns, hcost, hfit⟩ := hrow room 0 0 (fun _ => rfl) (by omega)
  refine ⟨room, ns, locate_fst_eq_ok_iff.mpr ⟨hns, ?_, affords_of_cost_le ?_⟩⟩
  · rwa [Buffer.size_blank]
  · rwa [Buffer.size_blank]

/-! ### What is accepted -/

/-- The tree has no function in it; where the type uses the function type, something in the tree
is empty in its stead. -/
structure WithoutFunctions (t : AbiType) (n : Node) : Prop where
  types : ∀ m ∈ n.preorder, m.type ≠ .function
  empty : t.usesFunction = true → ∃ e ∈ n.preorder, e.type.usesFunction = true ∧ e.children = []

lemma withoutFunctions_leaf (ht : n.type.usesFunction = false) (hn : n.children = []) :
    WithoutFunctions n.type n := by
  refine ⟨fun m hm hfun => ?_, fun huses => ?_⟩
  · rw [preorder_eq, hn, preorderOf_nil, List.mem_singleton] at hm
    rw [← hm, hfun] at ht
    cases ht
  · rw [ht] at huses
    cases huses

/-- Nor is there a function in a row of such trees. -/
lemma types_of_withoutFunctions (h : List.Forall₂ WithoutFunctions ts ns) :
    ∀ m ∈ preorderOf ns, m.type ≠ .function := by
  intro m hm
  obtain ⟨c, hc, hmem⟩ := mem_preorderOf.mp hm
  obtain ⟨u, -, hu⟩ := exists_left_of_mem h hc
  exact hu.types m hmem

lemma exists_empty_of_withoutFunctions (h : List.Forall₂ WithoutFunctions ts ns)
    (huses : ∃ t ∈ ts, t.usesFunction = true) :
    ∃ e ∈ preorderOf ns, e.type.usesFunction = true ∧ e.children = [] := by
  obtain ⟨t, ht, ht'⟩ := huses
  obtain ⟨c, hc, htree⟩ := exists_left_of_mem h.flip ht
  obtain ⟨e, he, hempty⟩ := htree.empty ht'
  exact ⟨e, mem_preorderOf.mpr ⟨c, hc, he⟩, hempty⟩

lemma withoutFunctions_compound {outOfLine : Bool} (ht : t ≠ .function)
    (huses : t.usesFunction = true → ts ≠ [] → ∃ u ∈ ts, u.usesFunction = true)
    (h : List.Forall₂ WithoutFunctions ts ns) :
    WithoutFunctions t (compound t pos outOfLine ns) := by
  have hpre : (compound t pos outOfLine ns).preorder =
      compound t pos outOfLine ns :: preorderOf ns := preorder_eq _
  refine ⟨?_, fun ht' => ?_⟩
  · rw [hpre]
    exact List.forall_mem_cons.mpr ⟨ht, types_of_withoutFunctions h⟩
  · rw [hpre]
    by_cases hts : ts = []
    · subst hts
      cases h
      exact ⟨compound t pos outOfLine [], by simp, ht', rfl⟩
    · obtain ⟨e, he, hempty⟩ := exists_empty_of_withoutFunctions h (huses ht' hts)
      exact ⟨e, List.mem_cons_of_mem _ he, hempty⟩

lemma Slot.withoutFunctions (h : Slot b base t pos n) (hpos : pos ≤ b.size) :
    WithoutFunctions t n := by
  refine h.induct (fun t pos w ht _ => ?_) (fun t start s ht _ => ?_) (fun t start ns _ hns => ?_)
    (fun t ts pos ns hm _ _ hns => ?_) hpos
  · exact withoutFunctions_leaf (n := .ofWord t pos w) (AbiType.isScalar_not_usesFunction ht) rfl
  · exact withoutFunctions_leaf (n := .ofPayload t (start + wordSize) s)
      (AbiType.isPayload_not_usesFunction ht) rfl
  · refine withoutFunctions_compound (by simp) (fun ht hne => ?_) hns
    obtain ⟨u, hu⟩ := List.exists_mem_of_ne_nil _ hne
    exact ⟨u, hu, by rwa [List.eq_of_mem_replicate hu]⟩
  · refine withoutFunctions_compound ?_ (AbiType.exists_member_of_usesFunction hm) hns
    rintro rfl
    cases hm

/-- The refusals of a walk name the function type, which occurs. -/
lemma usesFunction_of_locate {name : String}
    (h : (locate b ts).1 = .error (.unsupportedType name)) :
    name = AbiType.function.name ∧ AbiType.anyUsesFunction ts = true := by
  have hgood : ReadsGood fun fault => ∀ name, fault = .unsupportedType name →
      name = AbiType.function.name ∧ AbiType.anyUsesFunction ts = true :=
    fun fault hreads name hname => (hreads name hname).elim
  have hrefuse (huses : AbiType.anyUsesFunction ts = true) (name : String)
      (hname : ReadFault.unsupportedType AbiType.function.name = .unsupportedType name) :
      name = AbiType.function.name ∧ AbiType.anyUsesFunction ts = true :=
    ⟨(ReadFault.unsupportedType.inj hname).symm, huses⟩
  have hnothing : Withstands fun _ => True := ⟨fun _ _ _ _ => trivial, fun _ _ _ _ _ => trivial⟩
  exact (locate_keeps hnothing trivial hgood hrefuse h).2 name rfl

/-- **What a schema refuses, and what it does not.** Every buffer is refused, under given limits, if
and only if one of the types demands a function. What is found has no function in it, so where a
type uses the function type, something that might have held one is empty. And only schemas that use
the function type are ever refused for a type, which then is this one. -/
theorem locate_refuses (ts : List AbiType) :
    (∀ limits, (∀ bytes, ∃ fault, (locate ⟨bytes, limits⟩ ts).1 = .error fault) ↔
      ∃ t ∈ ts, t.demandsFunction = true) ∧
    (∀ b ns, (locate b ts).1 = .ok ns → (∀ m ∈ preorderOf ns, m.type ≠ .function) ∧
      ((∃ t ∈ ts, t.usesFunction = true) →
        ∃ e ∈ preorderOf ns, e.type.usesFunction = true ∧ e.children = [])) ∧
    ∀ b name, (locate b ts).1 = .error (.unsupportedType name) →
      name = AbiType.function.name ∧ ∃ t ∈ ts, t.usesFunction = true := by
  refine ⟨fun limits => ⟨fun hall => ?_, fun hdemands bytes => ?_⟩, fun b ns hns => ?_,
    fun b name hname => ?_⟩
  · by_contra hnone
    simp only [not_exists, not_and, Bool.not_eq_true] at hnone
    obtain ⟨size, ns, hns⟩ := exists_locate_blank limits hnone
    obtain ⟨fault, hfault⟩ := hall (List.replicate size 0)
    cases hns.symm.trans hfault
  · cases hl : (locate ⟨bytes, limits⟩ ts).1 with
    | error fault => exact ⟨fault, rfl⟩
    | ok ns => exact (not_row_of_demandsFunction hdemands (locate_fst_eq_ok_iff.mp hl).1).elim
  · obtain ⟨hrow, -⟩ := locate_fst_eq_ok_iff.mp hns
    have hwithout := hrow.forall₂_of_slots (P := WithoutFunctions)
      (fun t _ _ _ _ hslot hle => hslot.withoutFunctions hle) (Nat.zero_le _)
    exact ⟨types_of_withoutFunctions hwithout, exists_empty_of_withoutFunctions hwithout⟩
  · obtain ⟨rfl, huses⟩ := usesFunction_of_locate hname
    rw [AbiType.anyUsesFunction_eq_any, List.any_eq_true] at huses
    exact ⟨rfl, huses⟩

/-- A list of callbacks that is empty. -/
def noCallbacks : Buffer where
  bytes := (List.replicate 31 0 ++ [32]) ++ List.replicate 32 0

/-- A callback and its price are refused in every buffer, and where there is room for the price it
is the callback that is. A list of callbacks is not refused as long as it is empty. -/
theorem callbacks_refused :
    (∀ bytes, ∃ fault, (locate ⟨bytes, {}⟩ [.tuple [.uint 8, .function]]).1 = .error fault) ∧
    ((locate noCallbacks [.tuple [.uint 8, .function]]).1 = .error (.unsupportedType "function") ∧
      ∃ t ∈ [AbiType.tuple [.uint 8, .function]], t.usesFunction = true) ∧
    ∃ ns, (locate noCallbacks [.array .function]).1 = .ok ns ∧
      ∃ e ∈ preorderOf ns, e.type.usesFunction = true ∧ e.children = [] := by
  have hdemands : ∃ t ∈ [AbiType.tuple [.uint 8, .function]], t.demandsFunction = true :=
    ⟨_, List.mem_singleton_self _, rfl⟩
  have huses : ∃ t ∈ [AbiType.array .function], t.usesFunction = true :=
    ⟨_, List.mem_singleton_self _, rfl⟩
  have hrefused : (locate noCallbacks [.tuple [.uint 8, .function]]).1 =
      .error (.unsupportedType "function") := rfl
  have hfound : (locate noCallbacks [.array .function]).1 =
      .ok [compound (.array .function) 32 true []] := rfl
  exact ⟨((locate_refuses _).1 _).mpr hdemands,
    ⟨hrefused, ((locate_refuses _).2.2 _ _ hrefused).2⟩,
    _, hfound, ((locate_refuses _).2.1 _ _ hfound).2 huses⟩

/-- The function type occurs, and nothing is refused. -/
theorem noCallbacks_accepted :
    (∃ t ∈ [AbiType.array .function], t.usesFunction = true) ∧
      (locate noCallbacks [.array .function]).1 =
        .ok [compound (.array .function) 32 true []] :=
  ⟨⟨_, List.mem_singleton_self _, rfl⟩, rfl⟩

end Layout

end AbiSpan
