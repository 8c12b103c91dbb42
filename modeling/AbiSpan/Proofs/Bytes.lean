import AbiSpan.Bytes
import Mathlib.Tactic

/-!
Numbers written as bytes, bytes that stand in other bytes, and bytes written over others.
-/

namespace AbiSpan

namespace Bytes

/-- So many bytes that spell `n`, most significant first. -/
def ofNat : (size : Nat) → (n : Nat) → Bytes
  | 0, _ => []
  | size + 1, n => ofNat size (n / 256) ++ [UInt8.ofNat n]

@[simp] lemma length_ofNat (size n : ℕ) : (ofNat size n).length = size := by
  induction size generalizing n with
  | zero => rfl
  | succ size ih => simp [ofNat, ih]

lemma toNat_ofNat {size n : ℕ} (h : n < 256 ^ size) : (ofNat size n).toNat = n := by
  induction size generalizing n with
  | zero => rw [Nat.pow_zero, Nat.lt_one_iff] at h; simp [ofNat, h]
  | succ size ih =>
    rw [ofNat, toNat_snoc, ih (by rw [pow_succ] at h; omega), UInt8.toNat_ofNat']
    omega

/-- The bytes `s` stand at `pos`. -/
def Holds (b : Bytes) (pos : Nat) (s : Bytes) : Prop := b.slice? pos s.length = some s

lemma holds_iff {b s : Bytes} {pos : ℕ} :
    b.Holds pos s ↔ ∃ l r, b = l ++ s ++ r ∧ l.length = pos := by
  unfold Holds
  rw [slice?_eq_some_iff]
  constructor
  · intro h
    rcases h with ⟨hle, hs⟩
    refine ⟨b.take pos, (b.drop pos).drop s.length, ?_, by simp; omega⟩
    have hrest : s ++ (b.drop pos).drop s.length = b.drop pos := by
      conv_lhs => arg 1; rw [← hs]
      rw [List.take_append_drop]
    rw [List.append_assoc, hrest, List.take_append_drop]
  · intro h
    rcases h with ⟨l, r, rfl, rfl⟩
    simp

lemma holds_self (b : Bytes) : b.Holds 0 b := holds_iff.mpr ⟨[], [], by simp⟩

lemma Holds.le_length {b s : Bytes} {pos : ℕ} (h : b.Holds pos s) : pos + s.length ≤ b.length :=
  (slice?_eq_some_iff.mp h).1

lemma Holds.left {b s s' : Bytes} {pos : ℕ} (h : b.Holds pos (s ++ s')) : b.Holds pos s := by
  obtain ⟨l, r, rfl, rfl⟩ := holds_iff.mp h
  exact holds_iff.mpr ⟨l, s' ++ r, by simp⟩

lemma Holds.right {b s s' : Bytes} {pos : ℕ} (h : b.Holds pos (s ++ s')) :
    b.Holds (pos + s.length) s' := by
  obtain ⟨l, r, rfl, rfl⟩ := holds_iff.mp h
  exact holds_iff.mpr ⟨l ++ s, r, by simp⟩

/-- A slice of a slice is a slice. -/
lemma slice?_slice? {b s : Bytes} {pos size offset len : ℕ} (hs : b.slice? pos size = some s)
    (hle : offset + len ≤ s.length) : s.slice? offset len = b.slice? (pos + offset) len := by
  obtain ⟨hpos, rfl⟩ := slice?_eq_some_iff.mp hs
  have hlen := length_of_slice? hs
  rw [hlen] at hle
  unfold slice?
  rw [hlen, if_pos hle, if_pos (by omega), List.drop_take, List.take_take, List.drop_drop,
    Nat.min_eq_left (by omega)]

/-- Slices behind the first `k` bytes. -/
lemma slice?_drop {b : Bytes} {k : ℕ} (hk : k ≤ b.length) (offset size : ℕ) :
    slice? (b.drop k) offset size = b.slice? (k + offset) size := by
  unfold slice?
  rw [List.length_drop, List.drop_drop]
  by_cases h : k + offset + size ≤ b.length
  · rw [if_pos h, if_pos (by omega)]
  · rw [if_neg h, if_neg (by omega)]

/-- A slice stays when more bytes follow. -/
lemma slice?_append {b s : Bytes} {offset size : ℕ} (h : b.slice? offset size = some s)
    (suffix : Bytes) : slice? (b ++ suffix) offset size = some s := by
  obtain ⟨hle, hs⟩ := slice?_eq_some_iff.mp h
  refine slice?_eq_some_iff.mpr ⟨by rw [List.length_append]; omega, ?_⟩
  rw [List.drop_append_of_le_length (by omega), List.take_append_of_le_length, hs]
  rw [List.length_drop]
  omega

/-! ### Bytes written over others -/

/-- The bytes with `s` in place of what stands at `pos`. -/
def overwrite (b : Bytes) (pos : Nat) (s : Bytes) : Bytes :=
  b.take pos ++ s ++ b.drop (pos + s.length)

section Overwrite

variable {b s : Bytes} {pos offset size : ℕ}

lemma length_overwrite (h : pos + s.length ≤ b.length) :
    (b.overwrite pos s).length = b.length := by
  simp only [overwrite, List.length_append, List.length_take, List.length_drop]
  omega

/-- What lies beside the overwritten range stays. -/
lemma slice?_overwrite (h : pos + s.length ≤ b.length)
    (hbeside : offset + size ≤ pos ∨ pos + s.length ≤ offset) :
    (b.overwrite pos s).slice? offset size = b.slice? offset size := by
  have hfront : (b.take pos).length = pos := by
    rw [List.length_take]
    omega
  have hkept (i : ℕ) (hi : i < size) : (b.overwrite pos s)[offset + i]? = b[offset + i]? := by
    unfold overwrite
    rw [List.append_assoc]
    rcases hbeside with hbefore | hafter
    · rw [List.getElem?_append_left (by omega), List.getElem?_take_of_lt (by omega)]
    · rw [List.getElem?_append_right (by omega), List.getElem?_append_right (by omega),
        List.getElem?_drop]
      congr 1
      omega
  unfold slice?
  rw [length_overwrite h]
  refine if_congr Iff.rfl (congrArg some (List.ext_getElem? fun i => ?_)) rfl
  rw [List.getElem?_take, List.getElem?_take, List.getElem?_drop, List.getElem?_drop]
  split
  · exact hkept i ‹_›
  · rfl

end Overwrite

end Bytes

lemma Fixed.bytes_inj {n : ℕ} {f g : Fixed n} : f.bytes = g.bytes ↔ f = g := by
  cases f
  cases g
  simp

lemma Fixed.front?_eq_some {n : ℕ} {b : Bytes} {f : Fixed n} (h : Fixed.front? n b = some f) :
    b.slice? 0 n = some f.bytes := by
  unfold front? ofBytes? at h
  split at h
  · rename_i hlen
    cases h
    rw [List.length_take] at hlen
    exact Bytes.slice?_eq_some_iff.mpr ⟨by omega, rfl⟩
  · cases h

end AbiSpan
