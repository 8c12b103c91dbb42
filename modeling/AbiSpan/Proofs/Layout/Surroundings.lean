import AbiSpan.Proofs.Layout.Faithful
import AbiSpan.Proofs.Layout.Padding

/-!
What stands around the bytes.

A walk counts from where its view starts, and does not ask what stands before. So with more bytes in
front of the buffer, and a view opened behind them, the walk goes as it did, and names every place
as so much further on: in its trees, and in its faults. What stands behind is asked for only where
something would lie past the end, so more bytes there change no tree that has been found; nor do
more types in the row change the nodes of those before them.
-/

namespace AbiSpan

/-! ### Moving what names a place -/

/-- The buffer with more bytes in front. -/
def Buffer.after (b : Buffer) (front : Bytes) : Buffer := { b with bytes := front ++ b.bytes }

@[simp] lemma Buffer.size_after (b : Buffer) (front : Bytes) :
    (b.after front).size = b.size + front.length := by
  rw [Nat.add_comm]
  exact List.length_append

/-- The view that it would be with `k` more bytes in front of the buffer. -/
def View.moved (k : Nat) (v : View) : View := { v with base := v.base + k }

@[simp] lemma View.position_moved (k : ℕ) (v : View) :
    (v.moved k).position = v.position + k := Nat.add_right_comm _ _ _

namespace Node

mutual

/-- The node that it would be with `k` more bytes in front of the buffer. -/
def moved (k : Nat) : Node → Node
  | ⟨type, offset, size, outOfLine, value, children⟩ =>
    ⟨type, offset + k, size, outOfLine, value, movedAll k children⟩

def movedAll (k : Nat) : List Node → List Node
  | [] => []
  | c :: cs => c.moved k :: movedAll k cs

end

lemma eq_movedAll {k : ℕ} {ns ns' : List Node}
    (h : List.Forall₂ (fun n n' => n' = n.moved k) ns ns') : ns' = movedAll k ns := by
  induction h with
  | nil => rfl
  | cons hn _ ih => rw [movedAll, hn, ih]

end Node

namespace Reading

variable {b : Buffer} {front : Bytes} {k : ℕ} {α β γ δ : Type} {R : α → β → Prop}

/-- The second view is the first one, moved, and the first has not been read past the end. -/
def Behind (b : Buffer) (k : Nat) (v v' : View) : Prop := v.Valid b ∧ v' = v.moved k

/-- From any such views, and whatever has been read before, `x` and `y` end alike: with values that
`R` relates and with such views, or with one fault, moved. -/
def InStep (b : Buffer) (k : Nat) {α β : Type} (R : α → β → Prop) (x : Reading α)
    (y : Reading β) : Prop :=
  ∀ p q, Behind b k p.view q.view →
    (∃ a c p' q', R a c ∧ outcome x p = (.ok a, p') ∧ outcome y q = (.ok c, q') ∧
      Behind b k p'.view q'.view) ∨
    ∃ fault p' q', outcome x p = (.error fault, p') ∧ outcome y q = (.error (fault.moved k), q')

lemma inStep_pure {a : α} {c : β} (h : R a c) : InStep b k R (pure a) (pure c) :=
  fun p q hpq => .inl ⟨a, c, p, q, h, rfl, rfl, hpq⟩

lemma inStep_throw (R : α → β → Prop) (fault : ReadFault) :
    InStep b k R (throw fault) (throw (fault.moved k)) :=
  fun p q _ => .inr ⟨fault, p, q, rfl, rfl⟩

lemma inStep_ofExcept {x : Except ReadFault α} {y : Except ReadFault β}
    (h : (∃ a c, R a c ∧ x = .ok a ∧ y = .ok c) ∨
      ∃ fault, x = .error fault ∧ y = .error (fault.moved k)) :
    InStep b k R (MonadExcept.ofExcept x) (MonadExcept.ofExcept y) := by
  rcases h with ⟨a, c, hac, rfl, rfl⟩ | ⟨fault, rfl, rfl⟩
  · exact inStep_pure hac
  · exact inStep_throw R fault

lemma InStep.bind {S : γ → δ → Prop} {x : Reading α} {y : Reading β} {f : α → Reading γ}
    {g : β → Reading δ} (h : InStep b k R x y)
    (hfg : ∀ a c, R a c → InStep b k S (f a) (g c)) : InStep b k S (x >>= f) (y >>= g) := by
  intro p q hpq
  rcases h p q hpq with ⟨a, c, p', q', hac, hx, hy, hviews⟩ | ⟨fault, p', q', hx, hy⟩
  · rw [outcome_bind_ok hx, outcome_bind_ok hy]
    exact hfg a c hac p' q' hviews
  · exact .inr ⟨fault, p', q', outcome_bind_error hx, outcome_bind_error hy⟩

lemma inStep_view : InStep b k (Behind b k) view view :=
  fun p q hpq => .inl ⟨p.view, q.view, p, q, hpq, rfl, rfl, hpq⟩

lemma inStep_setView {v v' : View} (h : Behind b k v v') :
    InStep b k Eq (setView v) (setView v') :=
  fun p q _ => .inl ⟨(), (), { p with view := v }, { q with view := v' }, rfl, rfl, rfl, h⟩

lemma inStep_notify (m m' : Notice) : InStep b k Eq (notify m) (notify m') :=
  fun p q hpq => .inl ⟨(), (), { p with notices := p.notices.push m },
    { q with notices := q.notices.push m' }, rfl, rfl, rfl, hpq⟩

/-! ### Reads behind more bytes -/

lemma outcome_charge (hguard : b.limits.maxInflation = 0) (size : ℕ) (p : Progress) :
    outcome (charge b size) p = (.ok (), { p with bytesRead := addCapped p.bytesRead size }) := by
  refine ends_charge.mpr ⟨rfl, Nat.min_le_right _ _, fun hover => ?_⟩
  have hpos := hover.1
  omega

lemma inStep_charge (hguard : b.limits.maxInflation = 0) (size : ℕ) :
    InStep b k Eq (charge b size) (charge (b.after front) size) :=
  fun p q hpq => .inl ⟨(), (), _, _, rfl, outcome_charge hguard size p,
    outcome_charge (b := b.after front) hguard size q, hpq⟩

lemma readEnd_moved (b : Buffer) (front : Bytes) (v : View) (size : ℕ) (unpadded : Bool) :
    (∃ stop, v.readEnd b size unpadded = .ok stop ∧
      (v.moved front.length).readEnd (b.after front) size unpadded = .ok (stop + front.length)) ∨
    ∃ fault, v.readEnd b size unpadded = .error fault ∧
      (v.moved front.length).readEnd (b.after front) size unpadded =
        .error (fault.moved front.length) := by
  unfold View.readEnd
  rw [View.position_moved, Buffer.size_after]
  have hlimits : (b.after front).limits = b.limits := rfl
  have hfull : v.position + front.length + padded size ≤ b.size + front.length ↔
      v.position + padded size ≤ b.size := by omega
  have hbare : v.position + front.length + size ≤ b.size + front.length ↔
      v.position + size ≤ b.size := by omega
  simp only [hlimits, hfull, hbare]
  by_cases hbig : offsetBound ≤ padded size
  · exact .inr ⟨_, if_pos hbig, if_pos hbig⟩
  · rw [if_neg hbig, if_neg hbig]
    split
    · exact .inl ⟨_, rfl, by rw [Nat.add_right_comm]⟩
    · split
      · exact .inl ⟨_, rfl, by rw [Nat.add_right_comm]⟩
      · exact .inr ⟨_, rfl, rfl⟩

lemma inStep_bytes (hguard : b.limits.maxInflation = 0) (size : ℕ) (unpadded : Bool) :
    InStep b front.length Eq (bytes b size unpadded) (bytes (b.after front) size unpadded) := by
  refine inStep_view.bind fun v v' hv => ?_
  obtain ⟨-, rfl⟩ := hv
  have hend : InStep b front.length
      (fun stop stop' => v.position ≤ stop ∧ stop ≤ b.size ∧ stop' = stop + front.length)
      (MonadExcept.ofExcept (v.readEnd b size unpadded))
      (MonadExcept.ofExcept ((v.moved front.length).readEnd (b.after front) size unpadded)) := by
    refine inStep_ofExcept ?_
    rcases readEnd_moved b front v size unpadded with
      ⟨stop, hstop, hstop'⟩ | ⟨fault, hfault, hfault'⟩
    · obtain ⟨hlow, hhigh⟩ := View.readEnd_bounds hstop
      exact .inl ⟨stop, _, ⟨by omega, hhigh, rfl⟩, hstop, hstop'⟩
    · exact .inr ⟨fault, hfault, hfault'⟩
  refine hend.bind fun stop stop' hstops => ?_
  obtain ⟨hlow, hhigh, rfl⟩ := hstops
  refine (inStep_charge hguard size).bind fun _ _ _ => ?_
  refine (inStep_setView ⟨?_, ?_⟩).bind fun _ _ _ => inStep_pure ?_
  · unfold View.Valid View.position at *
    simp only
    omega
  · rw [View.position_moved, Nat.add_sub_add_right]
    rfl
  · rw [View.position_moved, Nat.add_comm, Buffer.after, List.drop_length_add_append]

lemma inStep_index (hguard : b.limits.maxInflation = 0) :
    InStep b front.length Eq (index b) (index (b.after front)) := by
  refine inStep_view.bind fun v v' hv => (inStep_bytes hguard wordSize false).bind fun w w' hw => ?_
  obtain ⟨-, rfl⟩ := hv
  subst hw
  rw [View.position_moved]
  by_cases hlt : w.toNat < offsetBound
  · simp only [if_pos hlt]
    exact inStep_pure rfl
  · simp only [if_neg hlt]
    exact inStep_throw _ _

lemma inStep_heads (hsize : (b.after front).size < offsetBound) :
    InStep b front.length (Behind b front.length) (Reader.ofBuffer b).heads
      (Reader.ofBuffer (b.after front)).heads := by
  rw [Reader.heads_ofBuffer, Reader.heads_ofBuffer]
  refine inStep_view.bind fun v v' hv => inStep_ofExcept ?_
  obtain ⟨hvalid, rfl⟩ := hv
  unfold View.Valid at hvalid
  rw [Buffer.size_after] at hsize
  have hopens (c : Buffer) (u : View) (hle : u.position ≤ c.size) (hlt : u.position < offsetBound) :
      u.openAhead c 0 = .ok { base := u.position } := by
    rw [View.openAhead, Nat.add_zero, if_pos hlt, View.openAt, if_pos hle]
  refine .inl ⟨{ base := v.position }, { base := v.position + front.length }, ⟨?_, rfl⟩,
    hopens b v hvalid (by omega), ?_⟩
  · exact hvalid
  · rw [hopens _ _ (by rw [View.position_moved, Buffer.size_after]; omega)
      (by rw [View.position_moved]; omega), View.position_moved]

/-- Without a guard, reads of a buffer with more bytes in front go as they went without these. -/
lemma displaced_after (hguard : b.limits.maxInflation = 0)
    (hsize : (b.after front).size < offsetBound) :
    (Reader.ofBuffer b).Displaced front.length (Reader.ofBuffer (b.after front))
      (InStep b front.length) (Behind b front.length) Eq
      (fun n n' => n' = n.moved front.length) where
  size_eq := b.size_after front
  pure := inStep_pure
  bind := .bind
  base_eq hv := by rw [hv.2]; rfl
  position_eq hv := by rw [hv.2, View.position_moved]
  opened offset hle := ⟨hle, rfl⟩
  view := inStep_view
  setView := inStep_setView
  heads := inStep_heads hsize
  bytes := inStep_bytes hguard
  index := inStep_index hguard
  followed _ _ := inStep_notify _ _
  located _ _ _ := inStep_notify _ _
  fail := inStep_throw
  leaf _ _ _ _ _ _ hs := by
    subst hs
    rfl
  compound type offset outOfLine ns ns' hns := by
    rw [Node.eq_movedAll hns]
    rfl

end Reading

namespace Layout

open Node Reading

variable {b : Buffer} {front : Bytes} {ts : List AbiType} {ns : List Node}

/-! ### More bytes in front -/

/-- The closing report is no part of what is found. -/
lemma locate_fst (b : Buffer) (ts : List AbiType) :
    (locate b ts).1 = (outcome (record b ts) {}).1 := by
  show (outcome (fields b ts) {}).1 = _
  unfold fields
  rw [outcome_bind]
  rcases outcome (record b ts) {} with ⟨_ | _, _⟩ <;> rfl

/-- A view opened behind more bytes. -/
lemma openAt_after (b : Buffer) (front : Bytes) :
    View.openAt (b.after front) front.length = .ok { base := front.length } := by
  rw [View.openAt, if_pos (by rw [Buffer.size_after]; omega)]

/-- A row read behind more bytes ends as the walk of the buffer by itself ends, moved. -/
lemma record_after (ts : List AbiType) (hguard : b.limits.maxInflation = 0)
    (hsize : (b.after front).size < offsetBound) {q : Progress}
    (hq : q.view = { base := front.length }) :
    (∃ ns, (locate b ts).1 = .ok ns ∧
      (outcome (record (b.after front) ts) q).1 = .ok (movedAll front.length ns)) ∨
    ∃ fault, (locate b ts).1 = .error fault ∧
      (outcome (record (b.after front) ts) q).1 = .error (fault.moved front.length) := by
  have hstep := (displaced_after hguard hsize).record ts
  rw [Reader.record_ofBuffer, Reader.record_ofBuffer] at hstep
  have hstart : Behind b front.length ({} : Progress).view q.view := by
    refine ⟨Nat.zero_le _, ?_⟩
    rw [hq, View.moved, Nat.zero_add]
  rw [locate_fst]
  rcases hstep _ _ hstart with ⟨ns, ns', p', q', hns, hx, hy, -⟩ | ⟨fault, p', q', hx, hy⟩
  · exact .inl ⟨ns, by rw [hx], by rw [hy, eq_movedAll hns]⟩
  · exact .inr ⟨fault, by rw [hx], by rw [hy]⟩

/-- What a node selects from the buffer, its range selects from any bytes in which the buffer
stands, once it is shifted to there. -/
lemma slice?_shift (h : (locate b ts).1 = .ok ns) {n : Node} (hn : n ∈ preorderOf ns) {s : Span}
    (hs : n.span = .ok s) {whole : Bytes} {pos : ℕ} (hwhole : whole.Holds pos b.bytes) :
    (s.shift pos).slice? whole = n.slice? b.bytes ∧ (n.slice? b.bytes).isSome = true := by
  obtain ⟨c, hc, hnc⟩ := mem_preorderOf.mp hn
  obtain ⟨t, -, hfaith⟩ := exists_left_of_mem (locate_faithful h).1 hc
  obtain ⟨u, hhonest⟩ := hfaith.exists_honest n hnc
  cases hsize : n.size with
  | none => simp [span, hsize] at hs
  | some size =>
    obtain ⟨-, hle, hvalue, heq⟩ := hhonest.sized size hsize
    simp only [span, hsize, Except.ok.injEq] at hs
    subst hs
    refine ⟨?_, by rw [← heq, hvalue]⟩
    simp only [Span.slice?, Span.shift, Node.slice?, span?, hsize, Option.map_some,
      Option.bind_some]
    exact (Bytes.slice?_slice? hwhole hle).symm

/-- **Where a buffer lies makes no difference.** Read through a view that is opened behind more
bytes, and whatever has been read before, the fields are found just where they are found in the
buffer by itself, so many bytes further on: the same trees with all offsets moved, or the same
fault, moved. (This is without a guard, which would allow more reading in the longer buffer.) So
the range of a node, shifted by where its buffer stands in other bytes, selects from these what the
node selects from the buffer. -/
theorem locate_relocatable (b : Buffer) (front : Bytes) (ts : List AbiType) :
    (b.limits.maxInflation = 0 → (b.after front).size < offsetBound →
      ∃ v, View.openAt (b.after front) front.length = .ok v ∧ ∀ q : Progress, q.view = v →
        (∀ ns', (outcome (record (b.after front) ts) q).1 = .ok ns' ↔
          ∃ ns, (locate b ts).1 = .ok ns ∧ ns' = movedAll front.length ns) ∧
        ∀ fault', (outcome (record (b.after front) ts) q).1 = .error fault' ↔
          ∃ fault, (locate b ts).1 = .error fault ∧ fault' = fault.moved front.length) ∧
    ∀ ns, (locate b ts).1 = .ok ns → ∀ n ∈ preorderOf ns, ∀ s, n.span = .ok s →
      ∀ (whole : Bytes) (pos : Nat), whole.Holds pos b.bytes →
        (s.shift pos).slice? whole = n.slice? b.bytes ∧ (n.slice? b.bytes).isSome = true := by
  refine ⟨fun hguard hsize => ⟨_, openAt_after b front, fun q hq => ?_⟩,
    fun ns h n hn s hs whole pos hwhole => slice?_shift h hn hs hwhole⟩
  rcases record_after ts hguard hsize hq with ⟨ns, hns, hmoved⟩ | ⟨fault, hfault, hmoved⟩
  · rw [hns, hmoved]
    exact ⟨by simp [eq_comm], by simp⟩
  · rw [hfault, hmoved]
    exact ⟨by simp, by simp [eq_comm]⟩

/-- Three bytes in front of `sharedTail`, and one behind. -/
theorem sharedTail_relocated :
    sharedTail.limits.maxInflation = 0 ∧ (sharedTail.after [1, 2, 3]).size < offsetBound ∧
    (∃ v, View.openAt (sharedTail.after [1, 2, 3]) 3 = .ok v ∧
      (outcome (record (sharedTail.after [1, 2, 3]) [.bytes, .bytes]) { view := v }).1 =
        .ok [.ofPayload .bytes 99 [7], .ofPayload .bytes 99 [7]]) ∧
    Bytes.Holds ([1, 2, 3] ++ sharedTail.bytes ++ [4]) 3 sharedTail.bytes ∧
    (Span.shift ⟨96, 1⟩ 3).slice? ([1, 2, 3] ++ sharedTail.bytes ++ [4]) =
      (Node.ofPayload .bytes 96 [7]).slice? sharedTail.bytes := by
  have hsize : (sharedTail.after [1, 2, 3]).size < offsetBound := by decide +kernel
  have hholds : Bytes.Holds ([1, 2, 3] ++ sharedTail.bytes ++ [4]) 3 sharedTail.bytes :=
    Bytes.holds_iff.mpr ⟨[1, 2, 3], [4], rfl, rfl⟩
  have hfit := sharedTail_row.allFit sharedTail_size (by decide) (Nat.zero_le _)
  have hok := locate_fst_eq_ok_iff.mpr ⟨sharedTail_row, hfit, affords_of_no_guard rfl⟩
  obtain ⟨hmoved, hshift⟩ := locate_relocatable sharedTail [1, 2, 3] [.bytes, .bytes]
  obtain ⟨v, hv, hread⟩ := hmoved rfl hsize
  refine ⟨rfl, hsize, ⟨v, hv, ((hread { view := v } rfl).1 _).mpr ⟨_, hok, rfl⟩⟩, hholds, ?_⟩
  exact (hshift _ hok (.ofPayload .bytes 96 [7]) (by simp [preorder_eq]) ⟨96, 1⟩ rfl _ 3 hholds).1

/-! ### More bytes, and more fields, behind -/

lemma readsIn_extended (b : Buffer) (suffix : Bytes) : b.ReadsIn (b.extended suffix) where
  slice hs := Bytes.slice?_append hs suffix
  room {pos size} hroom := by
    unfold Buffer.HasRoom at hroom ⊢
    have hlimits : (b.extended suffix).limits = b.limits := rfl
    rw [hlimits, Buffer.size_extended]
    omega

/-- The first fields of a row are a row. -/
lemma Row.left {base pos : ℕ} {ts₁ ts₂ : List AbiType}
    (h : Row b base (ts₁ ++ ts₂) pos ns) : Row b base ts₁ pos (ns.take ts₁.length) := by
  induction ts₁ generalizing pos ns with
  | nil => exact .nil
  | cons t ts₁ ih =>
    obtain ⟨n, ns', rfl, hn, hns⟩ := row_cons_iff.mp h
    exact .cons hn (ih hns)

lemma costOf_take_le (k : ℕ) (ns : List Node) : costOf (ns.take k) ≤ costOf ns := by
  conv_rhs => rw [← List.take_append_drop k ns]
  generalize ns.take k = front
  induction front with
  | nil => exact Nat.zero_le _
  | cons n front ih =>
    rw [List.cons_append, costOf_cons, costOf_cons]
    omega

lemma Affords.take (h : Affords b ns) (k : ℕ) : Affords b (ns.take k) := by
  intro hover
  refine h ⟨hover.1, hover.2.trans_le ?_⟩
  have hle := costOf_take_le k ns
  omega

/-- **What stands behind changes nothing that has been found.** With more bytes behind the buffer,
under whatever limits, the same tree is found, with the same bytes seen; and without the last of
the fields, the nodes of those before them. -/
theorem locate_stable (h : (locate b ts).1 = .ok ns) :
    (∀ suffix : Bytes, (locate (b.extended suffix) ts).1 = .ok ns) ∧
    ∀ ts₁ ts₂, ts = ts₁ ++ ts₂ → (locate b ts₁).1 = .ok (ns.take ts₁.length) := by
  refine ⟨fun suffix => ?_, fun ts₁ ts₂ hts => ?_⟩
  · exact locate_mono (readsIn_extended b suffix) (fun _ => exceeded_of_extended suffix) h
  · obtain ⟨hrow, hfit, hafford⟩ := locate_fst_eq_ok_iff.mp h
    subst hts
    exact locate_fst_eq_ok_iff.mpr
      ⟨hrow.left, fun n hn => hfit n (List.mem_of_mem_take hn), hafford.take _⟩

/-- A byte behind `unpadded` begins the padding that its payload may lack. -/
theorem unpadded_stable :
    (locate unpadded.loose [.bytes]).1 = .ok [.ofPayload .bytes 64 [97, 98, 99]] ∧
    (locate (unpadded.loose.extended [0]) [.bytes]).1 =
      .ok [.ofPayload .bytes 64 [97, 98, 99]] ∧
    (locate unpadded.loose []).1 = .ok [] := by
  have hfound : (locate unpadded.loose [.bytes]).1 = .ok [.ofPayload .bytes 64 [97, 98, 99]] := rfl
  obtain ⟨hsuffix, hfront⟩ := locate_stable hfound
  exact ⟨hfound, hsuffix [0], hfront [] [.bytes] rfl⟩

end Layout

end AbiSpan
