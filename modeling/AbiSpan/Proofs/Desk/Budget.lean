import AbiSpan.Proofs.Desk.Course

/-!
The one count that all views share.

What a move adds to the count can be told from its reply: a read that does not end past the buffer
is counted whether it succeeds or not. So the count is the sum of what the moves add, and what is
too much stays too much: the guard stops every read after the first that it has stopped.
-/

namespace AbiSpan

variable {b : Buffer} {v w : View} {size n m number : ℕ} {unpadded : Bool} {a : Action}
  {r : Except ReadFault Reply} {d d' : Desk}

/-! ### What a move counts -/

namespace Move

/-- The bytes that a move counts: all of its read, unless that ends past the buffer. -/
def charge (m : Move) : Nat :=
  match m.action.read?, m.reply with
  | some _, .error (.pastEnd ..) => 0
  | some (size, _), _ => size
  | none, _ => 0

/-- The guard has stopped the move. -/
def stopped (m : Move) : Bool :=
  match m.reply with
  | .error (.inflated ..) => true
  | _ => false

/-- The bytes of a read have been handed out: it has ended well, or what they spell was found at
fault. -/
def passed (m : Move) : Bool :=
  match m.reply with
  | .error (.pastEnd ..) | .error (.inflated ..) => false
  | _ => true

end Move

namespace Action

/-- A judgement finds fault with a word, and not with the count. -/
lemma stopped_judge (b : Buffer) (v : View) (s : Bytes) (a : Action) :
    Move.stopped ⟨a, a.judge b v s⟩ = false := by
  cases a with
  | readBytes | readBytesLoose | readWord | jump | openAhead | openAt | duplicate => rfl
  | readIndex =>
    simp only [judge]
    split <;> rfl
  | followPointer =>
    simp only [judge]
    split
    · split <;> rfl
    · rfl

/-- Nor does it find fault with the place of the word, so that what is judged is counted. -/
lemma charge_judge (h : a.read? = some (size, unpadded)) (b : Buffer) (v : View) (s : Bytes) :
    Move.charge ⟨a, a.judge b v s⟩ = size := by
  cases a with
  | jump | openAhead | openAt | duplicate => cases h
  | readBytes | readBytesLoose | readWord =>
    cases h
    rfl
  | readIndex =>
    cases h
    simp only [judge]
    split <;> rfl
  | followPointer =>
    cases h
    simp only [judge]
    split
    · split <;> rfl
    · rfl

lemma charge_of_still (h : a.read? = none) (r : Except ReadFault Reply) :
    Move.charge ⟨a, r⟩ = 0 := by
  simp [Move.charge, h]

lemma stopped_still (h : a.read? = none) (b : Buffer) (v : View) :
    Move.stopped ⟨a, (a.still b v).1⟩ = false := by
  cases a with
  | readBytes | readBytesLoose | readWord | readIndex | followPointer => cases h
  | duplicate => rfl
  | jump offset =>
    simp only [still, View.jump]
    split <;> rfl
  | openAt offset =>
    simp only [still, View.openAt]
    split <;> rfl
  | openAhead ahead =>
    simp only [still, View.openAhead, View.openAt]
    split
    · split <;> rfl
    · rfl

/-- What is counted is what passes the check of the bounds. -/
lemma Does.charge_eq (h : a.Does b v n r w m) (ha : a.read? = some (size, unpadded)) :
    Move.charge ⟨a, r⟩ = if (v.readEnd b size unpadded).isOk then size else 0 := by
  obtain ⟨q, hread, rfl⟩ := h.reads_inv ha
  cases hread with
  | outside hend =>
    obtain ⟨length, rfl⟩ := View.readEnd_eq_error hend
    simp [Move.charge, ha, hend, Except.bind, Except.isOk, Except.toBool]
  | stopped hend hover => simp [Move.charge, ha, hend, Except.bind, Except.isOk, Except.toBool]
  | done hend hunder => simp [charge_judge ha, hend, Except.bind, Except.isOk, Except.toBool]

/-- The count goes up by what the move counts, as far as it goes. -/
lemma Does.count_eq (h : a.Does b v n r w m) (hn : n ≤ maxOffset) :
    m = addCapped n (Move.charge ⟨a, r⟩) := by
  cases h with
  | still h => simp [charge_of_still h, addCapped, hn]
  | @reads size _ _ _ _ h hread =>
    cases hread with
    | outside hend =>
      obtain ⟨length, rfl⟩ := View.readEnd_eq_error hend
      simp [Move.charge, h, Except.bind, addCapped, hn]
    | stopped hend hover => simp [Move.charge, h, Except.bind]
    | done hend hunder =>
      show addCapped n size = addCapped n (Move.charge ⟨a, a.judge b v _⟩)
      rw [charge_judge h]

/-- What is too much stays too much. -/
lemma exceeded_mono (hle : n ≤ m) (h : b.limits.Exceeded b.size n) : b.limits.Exceeded b.size m :=
  ⟨h.1, h.2.trans_le hle⟩

/-- The count is too much after a move if it was before or if the guard has stopped the move. -/
lemma Does.exceeded_iff (h : a.Does b v n r w m) (hn : n ≤ maxOffset) :
    b.limits.Exceeded b.size m ↔
      b.limits.Exceeded b.size n ∨ Move.stopped ⟨a, r⟩ = true := by
  cases h with
  | still h => simp [stopped_still h]
  | @reads size _ _ _ _ h hread =>
    cases hread with
    | outside hend =>
      obtain ⟨length, rfl⟩ := View.readEnd_eq_error hend
      simp [Move.stopped, Except.bind]
    | stopped hend hover => simp [Move.stopped, Except.bind, hover]
    | done hend hunder =>
      have hle : n ≤ addCapped n size := le_min (Nat.le_add_right _ _) hn
      refine iff_of_false hunder ?_
      rintro (hover | hstopped)
      · exact hunder (exceeded_mono hle hover)
      · rw [Except.bind, stopped_judge] at hstopped
        cases hstopped

/-- A read that hands out its bytes has not read too much. -/
lemma Does.not_exceeded (h : a.Does b v n r w m) (ha : a.read? = some (size, unpadded))
    (hr : Move.passed ⟨a, r⟩ = true) : ¬ b.limits.Exceeded b.size m := by
  obtain ⟨q, hread, rfl⟩ := h.reads_inv ha
  cases hread with
  | outside hend =>
    obtain ⟨length, rfl⟩ := View.readEnd_eq_error hend
    cases hr
  | stopped hend hover => cases hr
  | done hend hunder => exact hunder

end Action

/-! ### What a course counts -/

namespace Course

variable {c : Course}

/-- The guard has stopped none of the moves. -/
def Unstopped (c : Course) : Prop := ∀ e ∈ c.moves, e.2.stopped = false

instance (c : Course) : Decidable c.Unstopped :=
  inferInstanceAs (Decidable (∀ e ∈ c.moves, e.2.stopped = false))

/-- The bytes that the moves count. -/
def charges (c : Course) : Nat := (c.moves.map fun e => e.2.charge).sum

lemma unstopped_moved {n : Descent} {m : Move} {d : Desk} :
    (c.moved n m d).Unstopped ↔ c.Unstopped ∧ m.stopped = false := by
  simp [Unstopped, moved, or_imp, forall_and]

lemma charges_moved (c : Course) (n : Descent) (m : Move) (d : Desk) :
    (c.moved n m d).charges = c.charges + m.charge := by
  simp [charges, moved]

lemma bytesRead_moved {n : Descent} {m : Move} {d : Desk}
    (h : c.desk.bytesRead = min c.charges maxOffset)
    (hsteps : c.desk.Steps b number m.action v m.reply w d) :
    d.bytesRead = min (c.moved n m d).charges maxOffset := by
  have hcount : d.bytesRead = addCapped c.desk.bytesRead m.charge :=
    hsteps.does.count_eq (h ▸ Nat.min_le_right _ _)
  rw [hcount, h, charges_moved, addCapped]
  omega

/-- **The count is the sum of what the moves count**, as far as it goes. -/
lemma bytesRead_of (b : Buffer) (requests : List (ℕ × Action)) :
    (of b requests).desk.bytesRead = min (of b requests).charges maxOffset :=
  of_induct (P := fun c => c.desk.bytesRead = min c.charges maxOffset) rfl
    (fun _ _ _ _ _ _ _ h _ hsteps => bytesRead_moved h hsteps) requests

lemma bytesRead_le (b : Buffer) (requests : List (ℕ × Action)) :
    (of b requests).desk.bytesRead ≤ maxOffset := by
  rw [bytesRead_of]
  exact Nat.min_le_right _ _

/-- The count is too much exactly if the guard has stopped a move. -/
lemma exceeded_iff (b : Buffer) (requests : List (ℕ × Action)) :
    b.limits.Exceeded b.size (of b requests).desk.bytesRead ↔ ¬ (of b requests).Unstopped := by
  induction requests using List.reverseRecOn with
  | nil =>
    have hunstopped : (of b []).Unstopped := by simp [of, Unstopped]
    exact iff_of_false (fun h => Nat.not_lt_zero _ h.2) (not_not.mpr hunstopped)
  | append_singleton requests request ih =>
    rw [of_snoc]
    rcases next_cases b (of b requests) request with hsame | ⟨n, m, v, w, d, -, hsteps, -, hnext⟩
    · rwa [hsame]
    · rw [hnext, unstopped_moved, not_and_or, ← ih, Bool.not_eq_false]
      exact hsteps.does.exceeded_iff (bytesRead_le b requests)

end Course

end AbiSpan
