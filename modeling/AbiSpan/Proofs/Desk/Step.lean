import AbiSpan.Desk
import AbiSpan.Proofs.Reading

/-!
What one action at a desk does.

Five of the nine actions read, and all five in the same way: one read through the view that is
named, and then a judgement of the bytes, which moves nothing and counts nothing. The other four
neither read nor count. So a step goes one of three ways, `Action.Does`, and no later proof opens
an action again. Whichever way it goes, it writes one view back and adds at most one.
-/

namespace AbiSpan

variable {b : Buffer} {p : Progress} {v w : View} {size n m number : ℕ} {unpadded : Bool}
  {a : Action} {r : Except ReadFault Reply} {d d' : Desk}

/-! ### Reads -/

namespace View

/-- The view with more bytes behind it. -/
def ahead (v : View) (size : Nat) : View := { v with consumed := v.consumed + size }

@[simp] lemma position_ahead (v : View) (size : ℕ) :
    (v.ahead size).position = v.position + size := by
  simp [ahead, position, Nat.add_assoc]

lemma jump_eq_ok_iff {offset : ℕ} :
    v.jump b offset = .ok w ↔ offset ≤ v.length b ∧ w = { v with consumed := offset } := by
  unfold jump
  split <;> simp [*, eq_comm]

lemma openAhead_eq_ok {ahead : ℕ} (h : v.openAhead b ahead = .ok w) :
    v.position + ahead ≤ b.size ∧ w = { base := v.position + ahead } := by
  unfold openAhead at h
  split at h
  · exact openAt_eq_ok_iff.mp h
  · cases h

/-- A read that goes too far is reported as such. -/
lemma readEnd_eq_error {fault : ReadFault} (h : v.readEnd b size unpadded = .error fault) :
    ∃ length, fault = .pastEnd v.position length b.size := by
  unfold readEnd at h
  split at h
  · cases h
    exact ⟨_, rfl⟩
  · split at h
    · cases h
    · split at h <;> cases h
      exact ⟨_, rfl⟩

/-- A read ends at a word, or where the buffer ends without its padding. -/
lemma readEnd_eq_ok {stop : ℕ} (h : v.readEnd b size unpadded = .ok stop) :
    stop = v.position + padded size ∨ stop = v.position + size ∧
      b.limits.allowLoose = true ∧ unpadded = true ∧ b.size < v.position + padded size := by
  unfold readEnd at h
  split at h
  · cases h
  · split at h
    · cases h
      exact .inl rfl
    · split at h
      · rename_i hover hloose
        simp only [Bool.and_eq_true, decide_eq_true_eq] at hloose
        cases h
        exact .inr ⟨rfl, hloose.1.1, hloose.1.2, not_le.mp hover⟩
      · cases h

end View

/-- What a read comes to, where it leaves the view, and how many bytes are read then. -/
inductive Reads (b : Buffer) (v : View) (n size : Nat) (unpadded : Bool) :
    Except ReadFault Bytes → View → Nat → Prop
  | outside {fault : ReadFault} (h : v.readEnd b size unpadded = .error fault) :
    Reads b v n size unpadded (.error fault) v n
  /-- The bytes count already, but the view has not moved. -/
  | stopped {stop : Nat} (h : v.readEnd b size unpadded = .ok stop)
      (hover : b.limits.Exceeded b.size (addCapped n size)) :
    Reads b v n size unpadded
      (.error (.inflated (addCapped n size) b.size b.limits.maxInflation)) v (addCapped n size)
  | done {stop : Nat} (h : v.readEnd b size unpadded = .ok stop)
      (hunder : ¬ b.limits.Exceeded b.size (addCapped n size)) :
    Reads b v n size unpadded (.ok ((b.bytes.drop v.position).take size))
      (v.ahead (stop - v.position)) (addCapped n size)

lemma Reads.unique {q q' : Except ReadFault Bytes} {w' : View} {m' : ℕ}
    (h : Reads b v n size unpadded q w m) (h' : Reads b v n size unpadded q' w' m') :
    q = q' ∧ w = w' ∧ m = m' := by
  cases h <;> cases h' <;> simp_all

lemma Reading.always_bytes : Always (bytes b size unpadded) p fun r p' =>
    Reads b p.view p.bytesRead size unpadded r p'.view p'.bytesRead := by
  simp only [bytes, view, charge, setView, always_bind, always_get, always_pure, always_ofExcept,
    always_modify]
  cases hend : p.view.readEnd b size unpadded with
  | error fault => exact .outside hend
  | ok stop =>
    by_cases hover : b.limits.Exceeded b.size (addCapped p.bytesRead size)
    · simp only [if_pos hover, always_throw]
      exact .stopped hend hover
    · simp only [if_neg hover, always_pure]
      exact .done hend hover

/-- A view that is looked at twice is the same. -/
lemma Reading.view_bind_view {α : Type} (f : View → View → Reading α) :
    (view >>= fun v => view >>= fun w => f v w) = view >>= fun v => f v v := rfl

/-! ### Actions -/

namespace Action

/-- The read that an action begins with: how many bytes, and whether they may lack padding. -/
def read? : Action → Option (Nat × Bool)
  | .readBytes size => some (size, false)
  | .readBytesLoose size => some (size, true)
  | .readWord | .readIndex | .followPointer => some (wordSize, false)
  | .jump _ | .openAhead _ | .openAt _ | .duplicate => none

/-- What an action makes of the bytes that it has read through a view. -/
def judge (b : Buffer) (v : View) (s : Bytes) : Action → Except ReadFault Reply
  | .readIndex =>
    if s.toNat < offsetBound then .ok (.number s.toNat) else .error (.wideWord v.position)
  | .followPointer =>
    if s.toNat < offsetBound then
      if v.base + s.toNat ≤ b.size then .ok (.opened { base := v.base + s.toNat })
      else .error (.strayPointer s.toNat v.position b.size)
    else .error (.wideWord v.position)
  | _ => .ok (.bytes s)

/-- What comes of an action that reads nothing, and where it leaves the view. -/
def still (b : Buffer) (v : View) : Action → Except ReadFault Reply × View
  | .jump offset => ((v.jump b offset).map fun _ => .moved, (v.jump b offset).toOption.getD v)
  | .openAhead ahead => ((v.openAhead b ahead).map .opened, v)
  | .openAt offset => ((View.openAt b offset).map .opened, v)
  | _ => (.ok (.opened v), v)

/-- What comes of an action, where it leaves the view, and how many bytes are read then. -/
inductive Does (b : Buffer) (a : Action) (v : View) (n : Nat) :
    Except ReadFault Reply → View → Nat → Prop
  | still (h : a.read? = none) : Does b a v n (a.still b v).1 (a.still b v).2 n
  | reads {size : Nat} {unpadded : Bool} {q : Except ReadFault Bytes} {w : View} {m : Nat}
      (h : a.read? = some (size, unpadded)) (hread : Reads b v n size unpadded q w m) :
    Does b a v n (q.bind (a.judge b v)) w m

/-- An action that reads is its read, and then a judgement of what it has read. -/
lemma perform_of_reads (b : Buffer) (h : a.read? = some (size, unpadded)) :
    a.perform b = Reading.view >>= fun v => Reading.bytes b size unpadded >>= fun s =>
      MonadExcept.ofExcept (a.judge b v s) := by
  cases a with
  | jump | openAhead | openAt | duplicate => cases h
  | readBytes | readBytesLoose | readWord =>
    cases h
    rfl
  | readIndex =>
    cases h
    simp only [perform, Reading.index, Reading.word, bind_assoc, judge]
    congr 1
    funext v
    congr 1
    funext s
    split <;> rfl
  | followPointer =>
    cases h
    simp only [perform, Reading.pointer, Reading.index, Reading.word, bind_assoc, judge,
      Reading.view_bind_view]
    congr 1
    funext v
    congr 1
    funext s
    split
    · rw [pure_bind]
      split <;> rfl
    · rfl

lemma always_still (h : a.read? = none) : Always (a.perform b) p fun r p' =>
    r = (a.still b p.view).1 ∧ p'.view = (a.still b p.view).2 ∧ p'.bytesRead = p.bytesRead := by
  cases a with
  | readBytes | readBytesLoose | readWord | readIndex | followPointer => cases h
  | duplicate => exact ⟨rfl, rfl, rfl⟩
  | openAt offset =>
    simp only [perform, always_bind, always_ofExcept, still]
    cases View.openAt b offset <;> simp [Except.map]
  | openAhead ahead =>
    simp only [perform, Reading.view, always_bind, always_get, always_pure, always_ofExcept, still]
    cases p.view.openAhead b ahead <;> simp [Except.map]
  | jump offset =>
    simp only [perform, Reading.view, Reading.setView, always_bind, always_get, always_pure,
      always_ofExcept, always_modify, still]
    cases p.view.jump b offset <;> simp [Except.map, Except.toOption]

lemma always_perform (b : Buffer) (a : Action) (p : Progress) :
    Always (a.perform b) p fun r p' => a.Does b p.view p.bytesRead r p'.view p'.bytesRead := by
  cases h : a.read? with
  | some read =>
    rw [perform_of_reads b h]
    simp only [Reading.view, always_bind, always_get, always_pure, always_ofExcept]
    refine Reading.always_bytes.mono fun r p' hread => ?_
    cases r with
    | error fault => exact .reads h hread
    | ok s => exact .reads h hread
  | none =>
    refine (always_still h).mono ?_
    rintro r p' ⟨rfl, hview, hread⟩
    rw [hview, hread]
    exact .still h

lemma Does.reads_inv (h : a.Does b v n r w m) (ha : a.read? = some (size, unpadded)) :
    ∃ q, Reads b v n size unpadded q w m ∧ r = q.bind (a.judge b v) := by
  cases h with
  | still h =>
    rw [ha] at h
    cases h
  | reads h hread =>
    rw [ha] at h
    cases h
    exact ⟨_, hread, rfl⟩

end Action

/-! ### Steps -/

/-- The view that a reply opens. -/
def Reply.opened? : Except ReadFault Reply → Option View
  | .ok (.opened w) => some w
  | _ => none

lemma Reply.opened?_eq_some : Reply.opened? r = some w ↔ r = .ok (.opened w) := by
  rcases r with fault | _ | _ | _ | v <;> simp [opened?]

namespace Desk

/-- A step goes through the view `v`, leaves it as `w`, and ends at another desk. -/
structure Steps (b : Buffer) (d : Desk) (number : Nat) (a : Action) (v : View)
    (r : Except ReadFault Reply) (w : View) (d' : Desk) : Prop where
  named : d.views[number]? = some v
  does : a.Does b v d.bytesRead r w d'.bytesRead
  /-- No other view changes, and one is added if the reply opens it. -/
  views_eq : d'.views = d.views.set number w ++ (Reply.opened? r).toList

lemma exists_steps (h : d.views[number]? = some v) (b : Buffer) (a : Action) :
    ∃ r w d', d.step b number a = some (r, d') ∧ d.Steps b number a v r w d' := by
  have hdoes := Action.always_perform b a { view := v, bytesRead := d.bytesRead }
  rcases hout : outcome (a.perform b) { view := v, bytesRead := d.bytesRead } with ⟨r, p⟩
  rw [always_iff_of_outcome hout] at hdoes
  have hrun : (a.perform b).run.run { view := v, bytesRead := d.bytesRead } = (r, p) := hout
  refine ⟨r, p.view, _, by rw [step, h, Option.map_some, hrun], h, hdoes, ?_⟩
  rcases r with fault | _ | _ | _ | w <;> simp [Reply.opened?]

/-- Every step goes through some view. -/
lemma steps_inv (h : d.step b number a = some (r, d')) :
    ∃ v w, d.Steps b number a v r w d' := by
  cases hnamed : d.views[number]? with
  | none =>
    rw [step, hnamed] at h
    cases h
  | some v =>
    obtain ⟨r', w, d'', hstep, hsteps⟩ := exists_steps hnamed b a
    rw [hstep] at h
    cases h
    exact ⟨v, w, hsteps⟩

end Desk

end AbiSpan
