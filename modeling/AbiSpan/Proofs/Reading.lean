import AbiSpan.Proofs.Layout.Laid
import AbiSpan.Proofs.Outcome

/-!
When the readers of a buffer end, and with what.

`Progress.past` moves the present view on, counts bytes and adds notices. Each reader ends in
the progress it began in, moved past what it has read, and only if the limits still allow the
count; so what a longer reading does is the sum of what its parts do.
-/

namespace AbiSpan

/-- The progress with `size` more bytes of the view behind it, `cost` more bytes read, and more
notices. -/
def Progress.past (p : Progress) (size cost : Nat) (notices : List Notice) : Progress where
  view := { p.view with consumed := p.view.consumed + size }
  bytesRead := addCapped p.bytesRead cost
  notices := p.notices ++ notices.toArray

/-- What has been read is capped, and not too much. -/
def Buffer.Allows (b : Buffer) (p : Progress) : Prop :=
  p.bytesRead ≤ maxOffset ∧ ¬ b.limits.Exceeded b.size p.bytesRead

namespace Progress

variable {p : Progress} {size size' cost cost' : ℕ} {notices notices' : List Notice}

@[simp] lemma past_base : (p.past size cost notices).view.base = p.view.base := rfl

@[simp] lemma past_position :
    (p.past size cost notices).view.position = p.view.position + size := by
  simp [past, View.position, Nat.add_assoc]

@[simp] lemma past_past : (p.past size cost notices).past size' cost' notices' =
    p.past (size + size') (cost + cost') (notices ++ notices') := by
  simp only [past, addCapped]
  congr 1
  · simp [Nat.add_assoc]
  · omega
  · simp

end Progress

namespace Buffer

variable {b : Buffer} {p : Progress} {size size' cost cost' : ℕ} {notices notices' : List Notice}

/-- What allows more reading allows less. -/
lemma Allows.of_past_le (h : b.Allows (p.past size cost notices)) (hle : cost' ≤ cost) :
    b.Allows (p.past size' cost' notices') := by
  unfold Allows Limits.Exceeded at h ⊢
  simp only [Progress.past, addCapped] at h ⊢
  exact ⟨by omega, by omega⟩

lemma Allows.past (h : b.Allows p) (notices : List Notice) : b.Allows (p.past 0 0 notices) := by
  simpa [Allows, Progress.past, addCapped, h.1] using h

@[simp] lemma Allows.past_zero (h : b.Allows p) : p.past 0 0 [] = p := by
  simp [Progress.past, addCapped, h.1]

end Buffer

namespace Reading

variable {b : Buffer} {p p' : Progress} {size n : ℕ} {s : Bytes} {v : View}

@[simp] lemma ends_view : Ends view p v p' ↔ p.view = v ∧ p = p' := by
  simp only [view, ends_bind, ends_get, ends_pure, and_assoc, exists_and_left, exists_eq_left']

@[simp] lemma ends_setView {u : Unit} :
    Ends (setView v) p u p' ↔ { p with view := v } = p' := ends_modify

lemma ends_notify {m : Notice} {u : Unit} (h : b.Allows p) :
    Ends (notify m) p u p' ↔ p' = p.past 0 0 [m] := by
  have hpast : p.past 0 0 [m] = { p with notices := p.notices.push m } := by
    simp [Progress.past, addCapped, h.1]
  rw [hpast, notify, ends_modify, eq_comm]

lemma ends_charge {u : Unit} : Ends (charge b size) p u p' ↔
    p' = { p with bytesRead := addCapped p.bytesRead size } ∧ b.Allows p' := by
  simp only [charge, ends_bind, ends_get, ends_modify, ends_ite, ends_throw, ends_pure, and_false,
    false_or, and_assoc, exists_and_left, exists_eq_left', exists_const, true_and]
  refine ⟨fun h => ?_, fun h => ?_⟩
  · rcases h with ⟨hallow, rfl⟩
    exact ⟨rfl, Nat.min_le_right _ _, hallow⟩
  · rcases h with ⟨rfl, -, hallow⟩
    exact ⟨hallow, rfl⟩

lemma ends_bytes {unpadded : Bool} : Ends (bytes b size unpadded) p s p' ↔
    ∃ stop, p.view.readEnd b size unpadded = .ok stop ∧
      s = (b.bytes.drop p.view.position).take size ∧
      p' = p.past (stop - p.view.position) size [] ∧ b.Allows p' := by
  simp only [bytes, ends_bind, ends_view, ends_ofExcept, ends_charge, ends_setView, ends_pure,
    and_assoc, exists_and_left, exists_eq_left', exists_eq_left, exists_const]
  refine exists_congr fun stop => and_congr_right fun _ => ⟨fun h => ?_, fun h => ?_⟩
  · rcases h with ⟨hallow, rfl, rfl⟩
    exact ⟨rfl, by simp [Progress.past], hallow⟩
  · rcases h with ⟨rfl, rfl, hallow⟩
    exact ⟨hallow, rfl, by simp [Progress.past]⟩

/-- Where a whole word is read, it ends a word further on. -/
lemma readEnd_word {stop : ℕ} : v.readEnd b wordSize false = .ok stop ↔
    v.position + wordSize ≤ b.size ∧ stop = v.position + wordSize := by
  unfold View.readEnd
  have : ¬ offsetBound ≤ wordSize := by decide
  simp only [padded_wordSize, this, if_false, Bool.and_false, Bool.false_and]
  split <;> simp [*, eq_comm]

lemma ends_word : Ends (word b) p s p' ↔ b.bytes.slice? p.view.position wordSize = some s ∧
    p' = p.past wordSize wordSize [] ∧ b.Allows p' := by
  simp only [word, ends_bytes, readEnd_word, Bytes.slice?_eq_some_iff, Buffer.size, and_assoc,
    exists_and_left, exists_eq_left, Nat.add_sub_cancel_left]
  rw [eq_comm (a := s)]

lemma ends_index : Ends (index b) p n p' ↔ b.bytes.IndexAt p.view.position n ∧
    p' = p.past wordSize wordSize [] ∧ b.Allows p' := by
  simp only [index, ends_bind, ends_view, ends_word, ends_ite, ends_pure, ends_throw, and_false,
    or_false, and_assoc, exists_and_left, exists_eq_left', exists_eq_left]
  refine ⟨fun h => ?_, fun h => ?_⟩
  · rcases h with ⟨w, hw, hallow, hlt, rfl, rfl⟩
    exact ⟨⟨w, hw, rfl, hlt⟩, rfl, hallow⟩
  · rcases h with ⟨⟨w, hw, rfl, hlt⟩, rfl, hallow⟩
    exact ⟨w, hw, hallow, hlt, rfl, rfl⟩

lemma ends_pointer : Ends (pointer b) p v p' ↔ ∃ ahead,
    b.bytes.IndexAt p.view.position ahead ∧ p.view.base + ahead ≤ b.size ∧
      v = { base := p.view.base + ahead } ∧ p' = p.past wordSize wordSize [] ∧ b.Allows p' := by
  simp only [pointer, ends_bind, ends_view, ends_index, ends_ite, ends_pure, ends_throw, and_false,
    or_false, and_assoc, exists_and_left, exists_eq_left', exists_eq_left]
  refine exists_congr fun ahead => and_congr_right fun _ => ⟨fun h => ?_, fun h => ?_⟩
  · rcases h with ⟨hallow, hle, rfl, rfl⟩
    exact ⟨hle, rfl, rfl, hallow⟩
  · rcases h with ⟨hle, rfl, rfl, hallow⟩
    exact ⟨hallow, hle, rfl, rfl⟩

lemma ends_within {α : Type} {x : Reading α} {a : α} : Ends (within v x) p a p' ↔
    ∃ q, Ends x { p with view := v } a q ∧ p' = { q with view := p.view } := by
  simp only [within, ends_bind, ends_view, ends_setView, ends_pure, and_assoc, exists_and_left,
    exists_eq_left', exists_const]
  refine ⟨fun h => ?_, fun h => ?_⟩
  · rcases h with ⟨_, q, hx, rfl, rfl⟩
    exact ⟨q, hx, rfl⟩
  · rcases h with ⟨q, hx, rfl⟩
    exact ⟨a, q, hx, rfl, rfl⟩

end Reading

end AbiSpan
