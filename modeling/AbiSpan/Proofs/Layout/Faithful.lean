import AbiSpan.Proofs.Layout.Exact

/-!
What every node of a located tree says, and that it is true of the buffer.

`Honest` is about one node: its type, its size and its range, its value, and where it lies.
`Faithful` asks this of a node and of all below it, where the types below are those that the
type gives there. Whatever the buffer holds, the tree that `locate` finds is faithful.
-/

namespace AbiSpan

/-- The types of so many children of a value of a type. -/
def AbiType.childTypes (t : AbiType) (count : Nat) : List AbiType :=
  match t with
  | .array u => List.replicate count u
  | t => t.members?.getD []

lemma AbiType.childTypes_of_members? {t : AbiType} {ts : List AbiType}
    (h : t.members? = some ts) (count : ℕ) : t.childTypes count = ts := by
  cases t <;> cases h <;> rfl

lemma AbiType.childTypes_of_isScalar {t : AbiType} (h : t.isScalar = true) (count : ℕ) :
    t.childTypes count = [] := by
  cases t <;> first | rfl | cases h

lemma AbiType.childTypes_of_isPayload {t : AbiType} (h : t.isPayload = true) (count : ℕ) :
    t.childTypes count = [] := by
  cases t <;> first | rfl | cases h

namespace Node

/-- What a node of a value of type `t` says by itself is true of the bytes `b`. -/
structure Honest (b : Bytes) (t : AbiType) (n : Node) : Prop where
  type_eq : n.type = t
  outOfLine_eq : n.outOfLine = t.isDynamic
  /-- Scalars and payloads have a size, and nothing else has. -/
  isSome_size : n.size.isSome = (t.isScalar || t.isPayload)
  scalar : t.isScalar = true → n.size = some wordSize
  /-- The word before a payload spells how long it is. -/
  payload : t.isPayload = true →
    wordSize ≤ n.offset ∧ ∃ size, n.size = some size ∧ b.IndexAt (n.offset - wordSize) size
  /-- The word at the start of an array spells how many elements there are. -/
  array : ∀ u, t = .array u → b.IndexAt n.offset n.children.length
  sized : ∀ size, n.size = some size →
    n.children = [] ∧ n.offset + size ≤ b.length ∧ n.value.isSome = true ∧ n.value = n.slice? b
  sizeless : n.size = none → n.value = none ∧ n.offset ≤ b.length

/-- The node is honest, has one child for each value inside, and the children are faithful. -/
inductive Faithful (b : Bytes) : AbiType → Node → Prop
  | intro {t : AbiType} {n : Node} : n.Honest b t →
    List.Forall₂ (Faithful b) (t.childTypes n.children.length) n.children → Faithful b t n

lemma Faithful.honest {b : Bytes} {t : AbiType} {n : Node} (h : Faithful b t n) : n.Honest b t := by
  rcases h with ⟨h, -⟩
  exact h

lemma Faithful.children {b : Bytes} {t : AbiType} {n : Node} (h : Faithful b t n) :
    List.Forall₂ (Faithful b) (t.childTypes n.children.length) n.children := by
  rcases h with ⟨-, h⟩
  exact h

/-- Whatever is in a faithful tree is honest about some type. -/
lemma Faithful.exists_honest {b : Bytes} {t : AbiType} {n : Node} (h : Faithful b t n) :
    ∀ m ∈ n.preorder, ∃ u, m.Honest b u := by
  induction n using Node.induct generalizing t with
  | node n ih =>
    intro m hm
    rw [preorder_eq] at hm
    rcases List.mem_cons.mp hm with rfl | hm
    · exact ⟨t, h.honest⟩
    · obtain ⟨c, hc, hmc⟩ := mem_preorderOf.mp hm
      obtain ⟨u, -, hu⟩ := Layout.exists_left_of_mem h.children hc
      exact ih c hc hu m hmc

end Node

namespace Layout

open Node

variable {b : Buffer} {base pos start : ℕ} {t : AbiType} {ts : List AbiType} {n : Node}
  {ns : List Node}

lemma honest_ofWord (ht : t.isScalar = true) {w : Bytes}
    (hw : b.bytes.slice? pos wordSize = some w) : (ofWord t pos w).Honest b.bytes t where
  type_eq := rfl
  outOfLine_eq := (AbiType.isScalar_not_isDynamic ht).symm
  isSome_size := by simp [ofWord, ht]
  scalar _ := rfl
  payload hp := by
    rw [AbiType.isPayload_isScalar hp] at ht
    cases ht
  array u hu := by subst hu; cases ht
  sized size hs := by
    cases hs
    exact ⟨rfl, (Bytes.slice?_eq_some_iff.mp hw).1, rfl, hw.symm⟩
  sizeless hs := by cases hs

lemma honest_ofPayload (ht : t.isPayload = true) {s : Bytes}
    (h : Tail b t start (ofPayload t (start + wordSize) s)) :
    (ofPayload t (start + wordSize) s).Honest b.bytes t := by
  obtain ⟨s', hi, -, hs, heq⟩ := (tail_payload_iff ht).mp h
  obtain rfl : s = s' := Option.some.inj (congrArg Node.value heq)
  exact {
    type_eq := rfl
    outOfLine_eq := (AbiType.isPayload_isDynamic ht).symm
    isSome_size := by simp [ofPayload, ht]
    scalar := fun hsc => by
      rw [AbiType.isPayload_isScalar ht] at hsc
      cases hsc
    payload := fun _ => ⟨Nat.le_add_left _ _, _, rfl, by
      rwa [ofPayload, Nat.add_sub_cancel]⟩
    array := fun u hu => by subst hu; cases ht
    sized := fun size hsize => by
      cases hsize
      exact ⟨rfl, (Bytes.slice?_eq_some_iff.mp hs).1, rfl, hs.symm⟩
    sizeless := fun hsize => by cases hsize }

lemma honest_array (h : Tail b (.array t) start (compound (.array t) start true ns)) :
    (compound (.array t) start true ns).Honest b.bytes (.array t) := by
  obtain ⟨ns', hi, -, heq⟩ := tail_array_iff.mp h
  obtain rfl : ns = ns' := congrArg Node.children heq
  exact {
    type_eq := rfl
    outOfLine_eq := rfl
    isSome_size := rfl
    scalar := fun hs => by cases hs
    payload := fun hp => by cases hp
    array := fun _ _ => hi
    sized := fun _ hs => by cases hs
    sizeless := fun _ => ⟨rfl, by
      have := hi.le_length
      simp only [compound]
      omega⟩ }

lemma honest_row (hm : t.members? = some ts) (hpos : pos ≤ b.size) :
    (compound t pos t.isDynamic ns).Honest b.bytes t where
  type_eq := rfl
  outOfLine_eq := rfl
  isSome_size := by
    rw [AbiType.isScalar_of_members? hm, AbiType.isPayload_of_members? hm]
    rfl
  scalar hs := by
    rw [AbiType.isScalar_of_members? hm] at hs
    cases hs
  payload hp := by
    rw [AbiType.isPayload_of_members? hm] at hp
    cases hp
  array u hu := by subst hu; cases hm
  sized _ hs := by cases hs
  sizeless _ := ⟨rfl, hpos⟩

/-- What is laid out in a slot is faithful. -/
lemma Slot.faithful (h : Slot b base t pos n) (hpos : pos ≤ b.size) : Faithful b.bytes t n := by
  refine h.induct (P := Faithful b.bytes) ?_ ?_ ?_ ?_ hpos
  · intro t pos w ht hw
    refine .intro (honest_ofWord ht hw) ?_
    rw [AbiType.childTypes_of_isScalar ht]
    exact .nil
  · intro t start s ht htail
    refine .intro (honest_ofPayload ht htail) ?_
    rw [AbiType.childTypes_of_isPayload ht]
    exact .nil
  · intro t start ns htail hns
    exact .intro (honest_array htail) hns
  · intro t ts pos ns hm hle _ hns
    refine .intro (honest_row hm hle) ?_
    rw [AbiType.childTypes_of_members? hm]
    exact hns

lemma Row.faithful (h : Row b base ts pos ns) (hpos : pos ≤ b.size) :
    List.Forall₂ (Faithful b.bytes) ts ns :=
  h.forall₂_of_slots (fun _ _ _ _ _ hs hle => hs.faithful hle) hpos

/-- In a faithful tree the leaves are all the sized nodes. -/
lemma leavesOf_eq_filter_preorderOf (h : List.Forall₂ (Faithful b.bytes) ts ns) :
    leavesOf ns = (preorderOf ns).filter (·.size.isSome) := by
  induction h with
  | nil => rfl
  | @cons t n ts ns hn _ ih =>
    rw [leavesOf, preorderOf_cons, List.filter_append, ih, leaves_eq_filter_preorder]
    intro m hm hs
    obtain ⟨u, hu⟩ := hn.exists_honest m hm
    obtain ⟨size, hsize⟩ := Option.isSome_iff_exists.mp hs
    exact (hu.sized size hsize).1

/-- **Soundness on any buffer.** Whatever the bytes and the limits, if `locate` finds a tree, it
has one faithful node for each type, in order; and its leaves are its sized nodes, parents before
children and left before right. -/
theorem locate_faithful (h : (locate b ts).1 = .ok ns) :
    List.Forall₂ (Faithful b.bytes) ts ns ∧
      leavesOf ns = (preorderOf ns).filter (·.size.isSome) := by
  obtain ⟨hr, -⟩ := locate_fst_eq_ok_iff.mp h
  have hns := hr.faithful (Nat.zero_le _)
  exact ⟨hns, leavesOf_eq_filter_preorderOf hns⟩

/-- Each sized node of a row that `locate` finds lies in the buffer. -/
lemma locate_slice? (h : (locate b ts).1 = .ok ns) {i size : ℕ} (hn : ns[i]? = some n)
    (hsize : n.size = some size) :
    n.offset + size ≤ b.size ∧ n.slice? b.bytes = b.bytes.slice? n.offset size := by
  obtain ⟨hr, -⟩ := locate_fst_eq_ok_iff.mp h
  obtain ⟨t, -, hfaith⟩ :=
    exists_left_of_mem (hr.faithful (Nat.zero_le _)) (List.mem_of_getElem? hn)
  refine ⟨(hfaith.honest.sized size hsize).2.1, ?_⟩
  simp [Node.slice?, Node.span?, hsize, Span.slice?]

/-- Two pointers to one byte string make two faithful nodes. -/
theorem sharedTail_faithful :
    (locate sharedTail [.bytes, .bytes]).1 =
        .ok [.ofPayload .bytes 96 [7], .ofPayload .bytes 96 [7]] ∧
      List.Forall₂ (Faithful sharedTail.bytes) [.bytes, .bytes]
        [.ofPayload .bytes 96 [7], .ofPayload .bytes 96 [7]] := by
  have hfit := sharedTail_row.allFit sharedTail_size (by decide) (Nat.zero_le _)
  have hok := locate_fst_eq_ok_iff.mpr ⟨sharedTail_row, hfit, affords_of_no_guard rfl⟩
  exact ⟨hok, (locate_faithful hok).1⟩

end Layout

end AbiSpan
