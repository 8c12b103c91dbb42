import AbiSpan.AbiType
import Mathlib.Tactic

/-!
The shape of a type, and how long its slot is.

A type is a scalar, a payload, an array, or a row of members: a tuple, or so many values of one
type. The slot of a dynamic type is one word, whatever lies behind it. The slot of a static row
is as long as those of its members together, so it may be of no length at all.
-/

namespace AbiSpan.AbiType

/-- A byte string or a text. -/
def isPayload : AbiType → Bool
  | .bytes | .string => true
  | _ => false

/-- The members of a type that is a row of values and nothing else. -/
def members? : AbiType → Option (List AbiType)
  | .fixedArray t n => some (List.replicate n t)
  | .tuple ts => some ts
  | _ => none

/-- Induction on a type by its shape. -/
@[elab_as_elim]
theorem induct {P : AbiType → Prop} (scalar : ∀ t, t.isScalar = true → P t)
    (function : P .function) (payload : ∀ t, t.isPayload = true → P t)
    (array : ∀ t, P t → P (.array t))
    (row : ∀ t ts, t.members? = some ts → (∀ u ∈ ts, P u) → P t) : ∀ t, P t
  | .bool => scalar _ rfl
  | .int _ => scalar _ rfl
  | .uint _ => scalar _ rfl
  | .fixedBytes _ => scalar _ rfl
  | .address => scalar _ rfl
  | .function => function
  | .bytes => payload _ rfl
  | .string => payload _ rfl
  | .array t => array t (induct scalar function payload array row t)
  | .fixedArray t n =>
    row _ _ rfl fun u hu => by
      rw [List.eq_of_mem_replicate hu]
      exact induct scalar function payload array row t
  | .tuple ts => row _ _ rfl fun u _ => induct scalar function payload array row u

lemma isPayload_isDynamic {t : AbiType} (h : t.isPayload = true) : t.isDynamic = true := by
  cases t <;> first | rfl | cases h

lemma isPayload_isScalar {t : AbiType} (h : t.isPayload = true) : t.isScalar = false := by
  cases t <;> first | rfl | cases h

lemma members?_of_isScalar {t : AbiType} (h : t.isScalar = true) : t.members? = none := by
  cases t <;> first | rfl | cases h

lemma members?_of_isPayload {t : AbiType} (h : t.isPayload = true) : t.members? = none := by
  cases t <;> first | rfl | cases h

lemma isScalar_of_members? {t : AbiType} {ts : List AbiType} (h : t.members? = some ts) :
    t.isScalar = false := by
  cases t <;> first | rfl | cases h

lemma isPayload_of_members? {t : AbiType} {ts : List AbiType} (h : t.members? = some ts) :
    t.isPayload = false := by
  cases t <;> first | rfl | cases h

/-- The members of a static row are static. -/
lemma isDynamic_of_mem_members? {t : AbiType} {ts : List AbiType} (h : t.members? = some ts)
    (hs : t.isDynamic = false) : ∀ u ∈ ts, u.isDynamic = false := by
  intro u hu
  cases t with
  | fixedArray t n =>
    cases h
    rw [List.eq_of_mem_replicate hu]
    simpa [isDynamic] using hs
  | tuple ts =>
    cases h
    simp only [isDynamic, anyDynamic_eq_any, List.any_eq_false] at hs
    simpa using hs u hu
  | _ => cases h

/-! ### The length of a slot -/

mutual

/-- How many bytes the slot of a type takes. -/
def slotSize : AbiType → Nat
  | .fixedArray t n => if t.isDynamic then wordSize else n * t.slotSize
  | .tuple ts => if anyDynamic ts then wordSize else rowSize ts
  | _ => wordSize

/-- How many bytes a row of slots takes. -/
def rowSize : List AbiType → Nat
  | [] => 0
  | t :: ts => t.slotSize + rowSize ts

end

@[simp] lemma rowSize_nil : rowSize [] = 0 := rfl

@[simp] lemma rowSize_cons (t : AbiType) (ts : List AbiType) :
    rowSize (t :: ts) = t.slotSize + rowSize ts := rfl

@[simp] lemma rowSize_replicate (n : ℕ) (t : AbiType) :
    rowSize (List.replicate n t) = n * t.slotSize := by
  induction n with
  | zero => simp
  | succ n ih => rw [List.replicate_succ, rowSize_cons, ih, Nat.succ_mul, Nat.add_comm]

lemma slotSize_of_isScalar {t : AbiType} (h : t.isScalar = true) : t.slotSize = wordSize := by
  cases t <;> first | rfl | cases h

lemma slotSize_of_isDynamic {t : AbiType} (h : t.isDynamic = true) : t.slotSize = wordSize := by
  cases t with
  | fixedArray t n => simp only [isDynamic] at h; simp [slotSize, h]
  | tuple ts => simp only [isDynamic] at h; simp [slotSize, h]
  | _ => rfl

lemma slotSize_of_members? {t : AbiType} {ts : List AbiType} (h : t.members? = some ts)
    (hs : t.isDynamic = false) : t.slotSize = rowSize ts := by
  cases t with
  | fixedArray t n => cases h; simp only [isDynamic] at hs; simp [slotSize, hs]
  | tuple ts => cases h; simp only [isDynamic] at hs; simp [slotSize, hs]
  | _ => cases h

/-! ### Arrays whose elements take room -/

mutual

/-- In every array of any length, inside the type and at any depth, the slots of the elements
are of some length. -/
def elemsTakeRoom : AbiType → Bool
  | .array t => t.slotSize != 0 && t.elemsTakeRoom
  | .fixedArray t _ => t.elemsTakeRoom
  | .tuple ts => allElemsTakeRoom ts
  | _ => true

def allElemsTakeRoom : List AbiType → Bool
  | [] => true
  | t :: ts => t.elemsTakeRoom && allElemsTakeRoom ts

end

lemma allElemsTakeRoom_iff {ts : List AbiType} :
    allElemsTakeRoom ts = true ↔ ∀ t ∈ ts, t.elemsTakeRoom = true := by
  induction ts with
  | nil => simp [allElemsTakeRoom]
  | cons t ts ih => simp [allElemsTakeRoom, ih]

lemma elemsTakeRoom_of_mem_members? {t : AbiType} {ts : List AbiType} (h : t.members? = some ts)
    (ht : t.elemsTakeRoom = true) : ∀ u ∈ ts, u.elemsTakeRoom = true := by
  intro u hu
  cases t with
  | fixedArray t n =>
    cases h
    rw [List.eq_of_mem_replicate hu]
    simpa [elemsTakeRoom] using ht
  | tuple ts =>
    cases h
    exact allElemsTakeRoom_iff.mp (by simpa [elemsTakeRoom] using ht) u hu
  | _ => cases h

end AbiSpan.AbiType
