import AbiSpan.Proofs.Desk.Course

/-!
Views stay inside their buffer.

No action can leave a view past the end of the buffer or open one there, whatever numbers it is
given and whatever the bytes are. So nothing that is computed from a view goes below zero or past
the buffer, and a buffer whose size is an offset has offsets only. What an action that ends well
gives is what stands at the view, and one that fails leaves all views alone; the exceptions are an
index and a pointer whose word has been read, which have moved over that word before it is judged.
-/

namespace AbiSpan

variable {b : Buffer} {v w : View} {size n m number : ℕ} {unpadded : Bool} {a : Action}
  {r : Except ReadFault Reply} {d d' : Desk}

lemma View.valid_ahead {stop : ℕ} (h : v.readEnd b size unpadded = .ok stop) :
    (v.ahead (stop - v.position)).Valid b := by
  obtain ⟨hle, hstop⟩ := readEnd_bounds h
  rw [Valid, position_ahead]
  omega

lemma Reads.valid {q : Except ReadFault Bytes} (h : Reads b v n size unpadded q w m)
    (hv : v.Valid b) : w.Valid b := by
  cases h with
  | outside h => exact hv
  | stopped h hover => exact hv
  | done h hunder => exact View.valid_ahead h

/-- What a read hands out stands at the view, and it moves on as far as its end. -/
lemma Reads.bytes {s : Bytes} (h : Reads b v n size unpadded (.ok s) w m) :
    b.bytes.slice? v.position size = some s ∧
      (w = v.ahead (padded size) ∨ w = v.ahead size ∧ b.limits.allowLoose = true ∧
        unpadded = true ∧ b.size < v.position + padded size) := by
  cases h with
  | done h hunder =>
    obtain ⟨hle, hstop⟩ := View.readEnd_bounds h
    refine ⟨Bytes.slice?_eq_some_iff.mpr ⟨hle.trans hstop, rfl⟩, ?_⟩
    rcases View.readEnd_eq_ok h with rfl | ⟨rfl, hloose⟩
    · exact .inl (by rw [Nat.add_sub_cancel_left])
    · exact .inr ⟨by rw [Nat.add_sub_cancel_left], hloose⟩

/-- A word that is read has no padding that could be missing. -/
lemma Reads.word {s : Bytes} (h : Reads b v n wordSize false (.ok s) w m) :
    b.bytes.slice? v.position wordSize = some s ∧ w = v.ahead wordSize := by
  obtain ⟨hbytes, hend | ⟨-, -, hpad, -⟩⟩ := h.bytes
  · exact ⟨hbytes, hend⟩
  · cases hpad

/-- A read that fails has not moved. -/
lemma Reads.fault {fault : ReadFault} (h : Reads b v n size unpadded (.error fault) w m) :
    w = v := by
  cases h <;> rfl

namespace Action

/-- The action asks for a view of this place: an offset from the start of the buffer, from the next
read, or, for a pointer, as far from the start of the view as the word there says. -/
def Opens (b : Buffer) (v w : View) : Action → Prop
  | .openAhead ahead => w = { base := v.position + ahead }
  | .openAt offset => w = { base := offset }
  | .followPointer => ∃ target, b.bytes.IndexAt v.position target ∧ w = { base := v.base + target }
  | .duplicate => w = v
  | _ => False

/-- How an action on a view may be answered, and where it then leaves the view. -/
inductive Answers (b : Buffer) (a : Action) (v : View) : Except ReadFault Reply → View → Prop
  | bytes {size : Nat} {s : Bytes} {w : View}
      (h : a = .readBytes size ∨ a = .readBytesLoose size ∨ a = .readWord ∧ size = wordSize)
      (hbytes : b.bytes.slice? v.position size = some s)
      (hend : w = v.ahead (padded size) ∨ w = v.ahead size ∧ b.limits.allowLoose = true ∧
        a = .readBytesLoose size ∧ b.size < v.position + padded size) :
    Answers b a v (.ok (.bytes s)) w
  | number {k : Nat} (h : a = .readIndex) : Answers b a v (.ok (.number k)) (v.ahead wordSize)
  | opened {w u : View} (hopens : a.Opens b v w) (hle : w.base ≤ b.size) (hvalid : w.Valid b)
      (hmoved : u = v ∨ a = .followPointer ∧ u = v.ahead wordSize) :
    Answers b a v (.ok (.opened w)) u
  | moved {offset : Nat} (h : a = .jump offset) (hle : offset ≤ v.length b) :
    Answers b a v (.ok .moved) { v with consumed := offset }
  | kept {fault : ReadFault} : Answers b a v (.error fault) v
  | judged {fault : ReadFault} (h : a = .readIndex ∨ a = .followPointer) :
    Answers b a v (.error fault) (v.ahead wordSize)

lemma answers_still (h : a.read? = none) (hv : v.Valid b) :
    a.Answers b v (a.still b v).1 (a.still b v).2 ∧ (a.still b v).2.Valid b := by
  cases a with
  | readBytes | readBytesLoose | readWord | readIndex | followPointer => cases h
  | duplicate => exact ⟨.opened rfl ((Nat.le_add_right _ _).trans hv) hv (.inl rfl), hv⟩
  | jump offset =>
    simp only [still]
    cases hjump : v.jump b offset with
    | error fault => exact ⟨.kept, hv⟩
    | ok w =>
      obtain ⟨hle, rfl⟩ := View.jump_eq_ok_iff.mp hjump
      refine ⟨.moved rfl hle, ?_⟩
      simp only [View.length, View.Valid, View.position] at hle hv
      show v.base + offset ≤ b.size
      omega
  | openAt offset =>
    simp only [still]
    cases hopen : View.openAt b offset with
    | error fault => exact ⟨.kept, hv⟩
    | ok w =>
      obtain ⟨hle, rfl⟩ := View.openAt_eq_ok_iff.mp hopen
      exact ⟨.opened rfl hle hle (.inl rfl), hv⟩
  | openAhead ahead =>
    simp only [still]
    cases hopen : v.openAhead b ahead with
    | error fault => exact ⟨.kept, hv⟩
    | ok w =>
      obtain ⟨hle, rfl⟩ := View.openAhead_eq_ok hopen
      exact ⟨.opened rfl hle hle (.inl rfl), hv⟩

lemma answers_judge {s : Bytes} (h : a.read? = some (size, unpadded))
    (hread : Reads b v n size unpadded (.ok s) w m) : a.Answers b v (a.judge b v s) w := by
  cases a with
  | jump | openAhead | openAt | duplicate => cases h
  | readBytes size =>
    cases h
    obtain ⟨hbytes, hend | ⟨-, -, hpad, -⟩⟩ := hread.bytes
    · exact .bytes (.inl rfl) hbytes (.inl hend)
    · cases hpad
  | readBytesLoose size =>
    cases h
    obtain ⟨hbytes, hend | ⟨hend, hloose, -, hover⟩⟩ := hread.bytes
    · exact .bytes (.inr (.inl rfl)) hbytes (.inl hend)
    · exact .bytes (.inr (.inl rfl)) hbytes (.inr ⟨hend, hloose, rfl, hover⟩)
  | readWord =>
    cases h
    obtain ⟨hbytes, hend⟩ := hread.word
    exact .bytes (.inr (.inr ⟨rfl, rfl⟩)) hbytes (.inl hend)
  | readIndex =>
    cases h
    obtain ⟨-, rfl⟩ := hread.word
    simp only [judge]
    split
    · exact .number rfl
    · exact .judged (.inl rfl)
  | followPointer =>
    cases h
    obtain ⟨hbytes, rfl⟩ := hread.word
    simp only [judge]
    split
    · rename_i hlt
      split
      · rename_i hle
        exact .opened ⟨_, ⟨s, hbytes, rfl, hlt⟩, rfl⟩ hle hle (.inr ⟨rfl, rfl⟩)
      · exact .judged (.inr rfl)
    · exact .judged (.inr rfl)

lemma Does.answers (h : a.Does b v n r w m) (hv : v.Valid b) : a.Answers b v r w := by
  cases h with
  | still h => exact (answers_still h hv).1
  | @reads _ _ q _ _ h hread =>
    cases q with
    | ok s => exact answers_judge h hread
    | error fault =>
      cases hread.fault
      exact .kept

/-- An action leaves its view inside the buffer, and opens none outside it. -/
lemma Does.valid (h : a.Does b v n r w m) (hv : v.Valid b) :
    w.Valid b ∧ ∀ u, r = .ok (.opened u) → u.Valid b := by
  refine ⟨?_, ?_⟩
  · cases h with
    | reads h hread => exact hread.valid hv
    | still h => exact (answers_still h hv).2
  · rintro u rfl
    cases h.answers hv with
    | opened hopens hle hvalid hmoved => exact hvalid

end Action

/-! ### Desks -/

namespace Desk

/-- An index or a pointer whose word can be read. -/
def WordRead (b : Buffer) (d : Desk) (number : Nat) (a : Action) : Prop :=
  (a = .readIndex ∨ a = .followPointer) ∧
    ∃ s e, d.step b number .readWord = some (.ok (.bytes s), e)

/-- What comes of an action at a desk, in terms of the view that it is performed on. -/
structure Orderly (b : Buffer) (d : Desk) (number : Nat) (v : View) (a : Action)
    (r : Except ReadFault Reply) (d' : Desk) : Prop where
  /-- A read hands out the next bytes, and moves over them and their padding. Over the bytes alone
  it moves only if the buffer ends within the padding, and the limits and the action allow that. -/
  read : ∀ s, r = .ok (.bytes s) → ∃ size w,
    (a = .readBytes size ∨ a = .readBytesLoose size ∨ a = .readWord ∧ size = wordSize) ∧
    b.bytes.slice? v.position size = some s ∧ d'.views = d.views.set number w ∧
    (w = v.ahead (padded size) ∨ w = v.ahead size ∧ b.limits.allowLoose = true ∧
      a = .readBytesLoose size ∧ b.size < v.position + padded size)
  /-- An index reads a word as `readWord` does. Once that is read, the index is the number that the
  word spells, if this is an offset, and a fault if it is not. -/
  index : a = .readIndex → ∀ q e, d.step b number .readWord = some (q, e) → d' = e ∧
    (∀ fault, q = .error fault → r = .error fault) ∧
    ∀ s, q = .ok (.bytes s) → (∀ k, r = .ok (.number k) ↔ s.toNat = k ∧ k < offsetBound) ∧
      (offsetBound ≤ s.toNat → r = .error (.wideWord v.position))
  /-- A view is opened where it is asked for, inside the buffer and after all others; and the view
  that asks for it moves only over the word of a pointer. -/
  opened : ∀ w, r = .ok (.opened w) → a.Opens b v w ∧ w.base ≤ b.size ∧
    ∃ u, d'.views = d.views.set number u ++ [w] ∧
      (u = v ∨ a = .followPointer ∧ u = v.ahead wordSize)
  /-- A jump goes where it is told, inside the view. -/
  moved : r = .ok .moved → ∃ offset, a = .jump offset ∧ offset ≤ v.length b ∧
    d'.views = d.views.set number { v with consumed := offset }
  /-- A failure leaves all views alone, unless it is that of an index or a pointer whose word has
  been read: then its view has moved over the word, and no other has. -/
  failed : ∀ fault, r = .error fault →
    (¬ d.WordRead b number a → d'.views = d.views) ∧
    (d.WordRead b number a → d'.views = d.views.set number (v.ahead wordSize))

/-- Two steps that begin with the same read through one view leave it the same, and judge the
same bytes. -/
lemma Steps.same_read {a' : Action} {r' : Except ReadFault Reply} {v' w' : View} {e : Desk}
    (h : d.Steps b number a v r w d') (h' : d.Steps b number a' v' r' w' e)
    (ha : a.read? = some (size, unpadded)) (ha' : a'.read? = some (size, unpadded)) :
    w' = w ∧ e.bytesRead = d'.bytesRead ∧ ∃ q : Except ReadFault Bytes,
      Reads b v d.bytesRead size unpadded q w d'.bytesRead ∧
        r = q.bind (a.judge b v) ∧ r' = q.bind (a'.judge b v) := by
  have hv := h'.named
  rw [h.named] at hv
  cases hv
  obtain ⟨q, hread, hr⟩ := h.does.reads_inv ha
  obtain ⟨q', hread', hr'⟩ := h'.does.reads_inv ha'
  obtain ⟨rfl, rfl, hcount⟩ := hread.unique hread'
  exact ⟨rfl, hcount.symm, q, hread, hr, hr'⟩

lemma Steps.views_of_opened?_eq_none (h : d.Steps b number a v r w d')
    (hr : Reply.opened? r = none) : d'.views = d.views.set number w := by
  rw [h.views_eq, hr]
  exact List.append_nil _

/-- An index does what the reading of its word does, and then judges the word. -/
lemma Steps.index {q : Except ReadFault Reply} {e : Desk}
    (h : d.Steps b number .readIndex v r w d') (hword : d.step b number .readWord = some (q, e)) :
    d' = e ∧ (∀ fault, q = .error fault → r = .error fault) ∧
      ∀ s, q = .ok (.bytes s) → r = Action.readIndex.judge b v s := by
  obtain ⟨v', w', hsteps⟩ := steps_inv hword
  obtain ⟨rfl, hcount, q, -, rfl, rfl⟩ := h.same_read hsteps rfl rfl
  have hindex : Reply.opened? (q.bind (Action.readIndex.judge b v)) = none := by
    cases q with
    | error fault => rfl
    | ok s =>
      simp only [Except.bind, Action.judge]
      split <;> rfl
  have hread : Reply.opened? (q.bind (Action.readWord.judge b v)) = none := by cases q <;> rfl
  have hviews : d'.views = e.views := by
    rw [h.views_of_opened?_eq_none hindex, hsteps.views_of_opened?_eq_none hread]
  refine ⟨?_, ?_, ?_⟩
  · cases d'
    cases e
    cases hviews
    cases hcount
    rfl
  · intro fault hq
    cases q <;> cases hq
    rfl
  · intro s hq
    cases q <;> cases hq
    rfl

/-- Where a word can be read, an index or a pointer moves over it, even if it is then at fault. -/
lemma Steps.ahead_of_wordRead (h : d.Steps b number a v r w d') (hword : d.WordRead b number a) :
    w = v.ahead wordSize := by
  obtain ⟨ha, s, e, hstep⟩ := hword
  obtain ⟨v', w', hsteps⟩ := steps_inv hstep
  have hread : a.read? = some (wordSize, false) := by rcases ha with rfl | rfl <;> rfl
  obtain ⟨-, -, q, hread, -, hq⟩ := h.same_read hsteps hread rfl
  cases q with
  | error fault => cases hq
  | ok s => exact hread.word.2

/-- Where it cannot, or another action fails, no view moves. -/
lemma Steps.eq_of_not_wordRead {fault : ReadFault} (h : d.Steps b number a v (.error fault) w d')
    (hv : v.Valid b) (hword : ¬ d.WordRead b number a) : w = v := by
  cases h.does.answers hv with
  | kept => rfl
  | judged ha =>
    exfalso
    have hread : a.read? = some (wordSize, false) := by rcases ha with rfl | rfl <;> rfl
    obtain ⟨r', w', e, hstep, hsteps⟩ := exists_steps h.named b .readWord
    obtain ⟨-, -, q, hread, hq, hr'⟩ := h.same_read hsteps hread rfl
    cases q with
    | error fault =>
      have hsame := congrArg View.consumed hread.fault
      simp [View.ahead, wordSize] at hsame
    | ok s =>
      cases hr'
      exact hword ⟨ha, s, e, hstep⟩

lemma Steps.orderly (h : d.Steps b number a v r w d') (hv : v.Valid b) :
    d.Orderly b number v a r d' where
  read := by
    rintro s rfl
    cases h.does.answers hv with
    | bytes ha hbytes hend =>
      exact ⟨_, w, ha, hbytes, h.views_of_opened?_eq_none rfl, hend⟩
  index := by
    rintro rfl q e hword
    obtain ⟨hd, hfault, hjudge⟩ := h.index hword
    refine ⟨hd, hfault, fun s hq => ?_⟩
    rw [hjudge s hq, Action.judge]
    by_cases hlt : s.toNat < offsetBound
    · rw [if_pos hlt]
      refine ⟨fun k => ?_, fun hge => absurd hlt (not_lt.mpr hge)⟩
      rw [Except.ok.injEq, Reply.number.injEq]
      exact ⟨fun hk => ⟨hk, hk ▸ hlt⟩, And.left⟩
    · rw [if_neg hlt]
      refine ⟨fun k => ?_, fun _ => rfl⟩
      constructor
      · intro hk
        cases hk
      · rintro ⟨rfl, hk⟩
        exact absurd hk hlt
  opened := by
    rintro u rfl
    cases h.does.answers hv with
    | opened hopens hle hvalid hmoved => exact ⟨hopens, hle, w, h.views_eq, hmoved⟩
  moved := by
    rintro rfl
    cases h.does.answers hv with
    | moved ha hle => exact ⟨_, ha, hle, h.views_of_opened?_eq_none rfl⟩
  failed := by
    rintro fault rfl
    rw [h.views_of_opened?_eq_none rfl]
    refine ⟨fun hword => ?_, fun hword => by rw [h.ahead_of_wordRead hword]⟩
    rw [h.eq_of_not_wordRead hv hword]
    obtain ⟨hlt, rfl⟩ := List.getElem?_eq_some_iff.mp h.named
    exact List.set_getElem_self hlt

lemma Steps.valid (h : d.Steps b number a v r w d') (hviews : ∀ u ∈ d.views, u.Valid b) :
    ∀ u ∈ d'.views, u.Valid b := by
  obtain ⟨hw, hopened⟩ := h.does.valid (hviews v (List.mem_of_getElem? h.named))
  intro u hu
  rw [h.views_eq] at hu
  rcases List.mem_append.mp hu with hu | hu
  · rcases List.mem_or_eq_of_mem_set hu with hu | rfl
    · exact hviews u hu
    · exact hw
  · exact hopened u (Reply.opened?_eq_some.mp (Option.mem_toList.mp hu))

end Desk

namespace Course

lemma valid_of (b : Buffer) (requests : List (ℕ × Action)) :
    ∀ v ∈ (of b requests).desk.views, v.Valid b := by
  refine of_induct ?_ (fun c number n m v w d h _ hsteps => hsteps.valid h) requests
  intro v hv
  cases List.mem_singleton.mp hv
  exact Nat.zero_le _

/-- **Views are safe to read through.** After any actions on any views, every view starts and goes
on inside the buffer, so that what is left of the view and of the buffer are differences of numbers
that do not exceed each other. And every action on every view then comes to something in an orderly
way. -/
theorem orderly_of (b : Buffer) (requests : List (ℕ × Action)) :
    let d := (of b requests).desk
    (∀ v ∈ d.views, v.base ≤ v.position ∧ v.position ≤ b.size ∧
      v.base + v.length b = b.size ∧ v.position + v.remaining b = b.size) ∧
    ∀ number v a, d.views[number]? = some v →
      ∃ r d', d.step b number a = some (r, d') ∧ d.Orderly b number v a r d' := by
  intro d
  refine ⟨fun v hv => ?_, fun number v a hnamed => ?_⟩
  · have hvalid : v.position ≤ b.size := valid_of b requests v hv
    have hbase : v.base ≤ v.position := Nat.le_add_right _ _
    exact ⟨hbase, hvalid, Nat.add_sub_cancel' (hbase.trans hvalid), Nat.add_sub_cancel' hvalid⟩
  · obtain ⟨r, w, d', hstep, hsteps⟩ := Desk.exists_steps hnamed b a
    exact ⟨r, d', hstep, hsteps.orderly (valid_of b requests v (List.mem_of_getElem? hnamed))⟩

/-- A word and part of one, read without the padding of the last payload. -/
def brokenOff : Buffer := { bytes := .replicate 40 0xaa, limits := { allowLoose := true } }

/-- Eight bytes are read to the very end of the buffer. The word before them spells no offset, and
the view that has tried it stands behind it all the same. -/
theorem brokenOff_orderly :
    let d := (of brokenOff [(0, .openAt 32)]).desk
    d.Orderly brokenOff 1 { base := 32 } (.readBytesLoose 8) (.ok (.bytes (.replicate 8 0xaa)))
      { views := [{}, { base := 32, consumed := 8 }], bytesRead := 8 } ∧
    d.Orderly brokenOff 0 {} .readIndex (.error (.wideWord 0))
      { views := [{ consumed := 32 }, { base := 32 }], bytesRead := 32 } := by
  intro d
  obtain ⟨-, hstep⟩ := orderly_of brokenOff [(0, .openAt 32)]
  constructor
  · obtain ⟨r, d', hread, horderly⟩ :=
      hstep 1 { base := 32 } (.readBytesLoose 8) (by decide +kernel)
    have hends : d.step brokenOff 1 (.readBytesLoose 8) = some (.ok (.bytes (.replicate 8 0xaa)),
        { views := [{}, { base := 32, consumed := 8 }], bytesRead := 8 }) := by decide +kernel
    cases hread.symm.trans hends
    exact horderly
  · obtain ⟨r, d', hindex, horderly⟩ := hstep 0 {} .readIndex (by decide +kernel)
    have hends : d.step brokenOff 0 .readIndex = some (.error (.wideWord 0),
        { views := [{ consumed := 32 }, { base := 32 }], bytesRead := 32 }) := by decide +kernel
    cases hindex.symm.trans hends
    exact horderly

end Course

end AbiSpan
