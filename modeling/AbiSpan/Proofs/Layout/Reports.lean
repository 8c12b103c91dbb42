import AbiSpan.Proofs.Layout.Kept
import AbiSpan.Proofs.Layout.Surroundings

/-!
What a walk reports.

Where a tree is found, the notices are those of the tree, read off in order, and one that closes
them. Where none is found nothing closes them; and if the buffer has only been cut short, they are
the first of those that the whole of it would have given: up to its fault, the walk of the short
buffer does what the walk of the long one does.
-/

namespace AbiSpan

namespace Reading

variable {α β γ δ : Type} {R : α → β → Prop} {S : γ → δ → Prop}

/-- However it ends, the reading reports nothing. -/
def Silent (x : Reading α) : Prop :=
  ∀ ns, Keeps (· = ns) (fun _ => True) Eq x

lemma Silent.notices_eq {x : Reading α} (h : Silent x) {p p' : Progress} {r : Except ReadFault α}
    (hx : outcome x p = (r, p')) : p'.notices = p.notices := by
  have hends := h p.notices p rfl
  rw [always_iff_of_outcome hx] at hends
  exact hends.1

/-- Wherever `y` ends, `x` has begun alike: it ends there too, with a value that `R` relates, or it
fails, and has reported the first of what `y` reports. -/
def Foretells {α β : Type} (R : α → β → Prop) (x : Reading α) (y : Reading β) : Prop :=
  ∀ p c q, Ends y p c q → p.notices.toList <+: q.notices.toList ∧ ∃ a, R a c ∧
    (Ends x p a q ∨
      ∃ fault p', outcome x p = (.error fault, p') ∧ p'.notices.toList <+: q.notices.toList)

lemma foretells_pure {a : α} {c : β} (h : R a c) : Foretells R (pure a) (pure c) := by
  intro p c' q hy
  obtain ⟨rfl, rfl⟩ := ends_pure.mp hy
  exact ⟨List.prefix_rfl, a, h, .inl (ends_pure.mpr ⟨rfl, rfl⟩)⟩

lemma foretells_throw {x : Reading α} (fault : ReadFault) :
    Foretells R x (throw fault : Reading β) := fun _ _ _ hy => (ends_throw hy).elim

lemma Foretells.bind {x : Reading α} {y : Reading β} {f : α → Reading γ} {g : β → Reading δ}
    (h : Foretells R x y) (hfg : ∀ a c, R a c → Foretells S (f a) (g c)) :
    Foretells S (x >>= f) (y >>= g) := by
  intro p d q hy
  obtain ⟨c, p₁, hy, hg⟩ := ends_bind.mp hy
  obtain ⟨hfront, a, hac, hx⟩ := h p c p₁ hy
  obtain ⟨hrest, a', hS, hf⟩ := hfg a c hac p₁ d q hg
  refine ⟨hfront.trans hrest, a', hS, ?_⟩
  rcases hx with hx | ⟨fault, p', hx, hearly⟩
  · rcases hf with hf | ⟨fault, p', hf, hlate⟩
    · exact .inl (ends_bind.mpr ⟨a, p₁, hx, hf⟩)
    · exact .inr ⟨fault, p', (outcome_bind_ok hx).trans hf, hlate⟩
  · exact .inr ⟨fault, p', outcome_bind_error hx, hearly.trans hrest⟩

/-- A reading that takes no notice away foretells itself. -/
lemma foretells_self {x : Reading α}
    (h : ∀ p a q, Ends x p a q → p.notices.toList <+: q.notices.toList) : Foretells Eq x x :=
  fun p a q hx => ⟨h p a q hx, a, rfl, .inl hx⟩

lemma foretells_view : Foretells Eq view view := foretells_self fun _ _ _ hx => by
  rw [(ends_view.mp hx).2]

lemma foretells_setView (v : View) : Foretells Eq (setView v) (setView v) :=
  foretells_self fun _ _ _ hx => by rw [← ends_setView.mp hx]

lemma foretells_notify (n : Notice) : Foretells Eq (notify n) (notify n) :=
  foretells_self fun p _ _ hx => by
    rw [← ends_modify.mp hx]
    simp

lemma Foretells.within {x : Reading α} {y : Reading β} (h : Foretells R x y) (v : View) :
    Foretells R (within v x) (within v y) :=
  foretells_view.bind fun _ _ houter => (foretells_setView v).bind fun _ _ _ =>
    h.bind fun _ _ hac => houter ▸ (foretells_setView _).bind fun _ _ _ => foretells_pure hac

/-- Where neither reports anything, it is enough that they end alike if both end. -/
lemma foretells_of_silent {x y : Reading α} (hx : Silent x) (hy : Silent y)
    (hagree : ∀ p a c q q', Ends x p a q → Ends y p c q' → a = c ∧ q = q') :
    Foretells Eq x y := by
  intro p c q hends
  refine ⟨by rw [hy.notices_eq hends], c, rfl, ?_⟩
  rcases hxp : outcome x p with ⟨fault | a, p'⟩
  · refine .inr ⟨fault, p', rfl, ?_⟩
    rw [hy.notices_eq hends, hx.notices_eq hxp]
  · obtain ⟨rfl, rfl⟩ := hagree p a c p' q hxp hends
    exact .inl hxp

end Reading

namespace Layout

open Node Reading

variable {b : Buffer} {suffix : Bytes} {ts : List AbiType} {ns : List Node}

/-! ### The beginning of a buffer -/

/-- A view that starts at the next read starts there, however long the buffer is. -/
lemma ends_heads {p q : Progress} {v : View} (h : Ends (Reader.ofBuffer b).heads p v q) :
    v = { base := p.view.position } ∧ q = p := by
  rw [Reader.heads_ofBuffer] at h
  simp only [ends_bind, ends_view, ends_ofExcept, and_assoc, exists_and_left,
    exists_eq_left'] at h
  obtain ⟨hopen, rfl⟩ := h
  unfold View.openAhead at hopen
  split at hopen
  · exact ⟨(View.openAt_eq_ok_iff.mp hopen).2, rfl⟩
  · cases hopen

lemma ends_word_node {t : AbiType} {n : Node} {p q : Progress}
    (h : Ends ((Reader.ofBuffer b).word t) p n q) :
    ∃ w, b.bytes.slice? p.view.position wordSize = some w ∧
      n = .ofWord t p.view.position w ∧ q = p.past wordSize wordSize [] := by
  obtain ⟨v, p₁, hview, h⟩ := ends_bind.mp h
  obtain ⟨rfl, rfl⟩ := ends_view.mp hview
  obtain ⟨w, p₂, hw, h⟩ := ends_bind.mp h
  obtain ⟨rfl, rfl⟩ := ends_pure.mp h
  obtain ⟨hslice, rfl, -⟩ := ends_word.mp hw
  exact ⟨w, hslice, rfl, rfl⟩

lemma ends_payload_node {t : AbiType} {v : View} {n : Node} {p q : Progress}
    (h : Ends ((Reader.ofBuffer b).within v ((Reader.ofBuffer b).payload t)) p n q) :
    ∃ s : Bytes, b.bytes.IndexAt v.position s.length ∧
      b.bytes.slice? (v.position + wordSize) s.length = some s ∧
      n = .ofPayload t (v.position + wordSize) s ∧ q = p.past 0 (wordSize + s.length) [] := by
  obtain ⟨p₁, hpayload, rfl⟩ := ends_within.mp h
  obtain ⟨s, hi, -, -, hs, rfl, size, rfl, -⟩ := payload_sound hpayload
  exact ⟨s, hi, hs, rfl, rfl⟩

/-- The walk of a buffer that has been cut short foretells that of the whole of it. -/
lemma paired_foretells (b : Buffer) (suffix : Bytes) :
    (Reader.ofBuffer b).Paired 0 (Reader.ofBuffer (b.extended suffix)) Foretells Eq Eq where
  pure := foretells_pure
  bind := .bind
  base_eq hv := congrArg View.base hv.symm
  position_eq hv := congrArg View.position hv.symm
  view := foretells_view
  within hv h := hv ▸ h.within _
  heads := foretells_of_silent (fun _ => keeps_heads readsGood_true)
    (fun _ => keeps_heads readsGood_true) fun p v v' q q' h h' => by
      obtain ⟨rfl, rfl⟩ := ends_heads h
      obtain ⟨rfl, rfl⟩ := ends_heads h'
      exact ⟨rfl, rfl⟩
  pointer := foretells_of_silent (fun _ => keeps_pointer readsGood_true)
    (fun _ => keeps_pointer readsGood_true) fun p v v' q q' h h' => by
      obtain ⟨ahead, hi, -, rfl, rfl, -⟩ := ends_pointer.mp h
      obtain ⟨ahead', hi', -, rfl, rfl, -⟩ := ends_pointer.mp h'
      obtain rfl := ((readsIn_extended b suffix).indexAt hi).unique hi'
      exact ⟨rfl, rfl⟩
  count := foretells_of_silent (fun _ => keeps_count readsGood_true)
    (fun _ => keeps_count readsGood_true) fun p k k' q q' h h' => by
      obtain ⟨hi, -, rfl, -⟩ := ends_count.mp h
      obtain ⟨hi', -, rfl, -⟩ := ends_count.mp h'
      exact ⟨((readsIn_extended b suffix).indexAt hi).unique hi', rfl⟩
  word t := foretells_of_silent (fun _ => keeps_word readsGood_true t)
    (fun _ => keeps_word readsGood_true t) fun p n n' q q' h h' => by
      obtain ⟨w, hw, rfl, rfl⟩ := ends_word_node h
      obtain ⟨w', hw', rfl, rfl⟩ := ends_word_node h'
      cases (Bytes.slice?_append hw suffix).symm.trans hw'
      exact ⟨rfl, rfl⟩
  payload t v v' hv := by
    subst hv
    refine foretells_of_silent (fun _ => keeps_within (keeps_payload readsGood_true t))
      (fun _ => keeps_within (keeps_payload readsGood_true t)) fun p n n' q q' h h' => ?_
    obtain ⟨w, hi, hw, rfl, rfl⟩ := ends_payload_node h
    obtain ⟨w', hi', hw', rfl, rfl⟩ := ends_payload_node h'
    rw [← ((readsIn_extended b suffix).indexAt hi).unique hi'] at hw'
    cases (Bytes.slice?_append hw suffix).symm.trans hw'
    exact ⟨rfl, rfl⟩
  followed type tail := foretells_notify _
  located type offset count := foretells_notify _
  compound _ _ _ _ _ hns := by
    rw [List.forall₂_eq_eq_eq] at hns
    rw [hns]
    rfl

lemma record_foretells (b : Buffer) (suffix : Bytes) (ts : List AbiType) :
    Foretells (List.Forall₂ Eq) (record b ts) (record (b.extended suffix) ts) := by
  rw [← Reader.record_ofBuffer, ← Reader.record_ofBuffer]
  exact (paired_foretells b suffix).record ts fun _ => foretells_throw _

/-! ### Static parts of a tree -/

/-- A node knows whether its type is dynamic, and nothing is reported about the static values in
it. -/
structure TellsStatic (t : AbiType) (n : Node) : Prop where
  outOfLine_eq : n.outOfLine = t.isDynamic
  static : ∀ m ∈ n.preorder, m.outOfLine = false → m.trail = []

lemma static_of_tellsStatic (h : List.Forall₂ TellsStatic ts ns) :
    ∀ m ∈ preorderOf ns, m.outOfLine = false → m.trail = [] := by
  intro m hm
  obtain ⟨c, hc, hm⟩ := mem_preorderOf.mp hm
  obtain ⟨u, -, hu⟩ := exists_left_of_mem h hc
  exact hu.static m hm

/-- What is inside tells it, and the node itself is seen to. -/
lemma tellsStatic_of_children {t : AbiType} {n : Node} (hn : n.outOfLine = t.isDynamic)
    (h : List.Forall₂ TellsStatic ts n.children)
    (hself : n.outOfLine = false → n.trail = []) : TellsStatic t n := by
  refine ⟨hn, fun m hm => ?_⟩
  rw [preorder_eq] at hm
  rcases List.mem_cons.mp hm with rfl | hm
  · exact hself
  · exact static_of_tellsStatic h m hm

lemma Slot.tellsStatic {base pos : ℕ} {t : AbiType} {n : Node} (h : Slot b base t pos n)
    (hpos : pos ≤ b.size) : TellsStatic t n := by
  refine h.induct (fun t pos w ht _ => ?_) (fun t start s ht _ => ?_) (fun t start ns _ hns => ?_)
    (fun t ts pos ns hm _ _ hns => ?_) hpos
  · refine tellsStatic_of_children (AbiType.isScalar_not_isDynamic ht).symm .nil fun _ => ?_
    exact trail_ofWord ht w
  · refine tellsStatic_of_children (AbiType.isPayload_isDynamic ht).symm .nil fun _ => ?_
    exact trail_ofPayload ht s
  · exact tellsStatic_of_children rfl hns fun hstatic => by cases hstatic
  · refine tellsStatic_of_children rfl hns fun hstatic => ?_
    rw [trail_row hm]
    refine trailOf_true_eq_nil fun c hc => ?_
    obtain ⟨u, hu, hcu⟩ := exists_left_of_mem hns hc
    have hc' : c.outOfLine = false :=
      hcu.outOfLine_eq.trans (AbiType.isDynamic_of_mem_members? hm hstatic u hu)
    have htrail := hcu.static c (by rw [preorder_eq]; simp) hc'
    rw [slotTrail, hc', htrail]
    rfl

/-! ### Notices -/

/-- No notice says that the fields have been located. -/
def Unclosed (ns : Array Notice) : Prop :=
  ∀ n ∈ ns, ∀ fields size total, n ≠ .fieldsLocated fields size total

lemma Unclosed.push {ms : Array Notice} (h : Unclosed ms) {n : Notice}
    (hn : ∀ fields size total, n ≠ .fieldsLocated fields size total) : Unclosed (ms.push n) := by
  intro m hm
  rcases Array.mem_push.mp hm with hm | rfl
  · exact h m hm
  · exact hn

/-- A walk that fails has not closed its report. -/
lemma unclosed_of_locate {fault : ReadFault} (h : (locate b ts).1 = .error fault) :
    Unclosed (locate b ts).2.notices := by
  have hpush : Withstands Unclosed :=
    ⟨fun _ _ _ h => h.push (by simp), fun _ _ _ _ h => h.push (by simp)⟩
  exact (locate_keeps hpush (by simp [Unclosed]) readsGood_true (fun _ => trivial) h).1

lemma locate_snd (h : (locate b ts).1 = .ok ns) : (locate b ts).2 = found b ts ns := by
  obtain ⟨-, -, -, hfound⟩ := locate_eq_ok_iff.mp (Prod.ext h rfl)
  exact hfound

/-- Where a walk ends with a tree, it has closed its report. -/
lemma notices_of_locate (h : (locate b ts).1 = .ok ns) : (locate b ts).2.notices.toList =
    trailOf true ns ++ [.fieldsLocated ns.length b.size (locate b ts).2.bytesRead] := by
  rw [locate_snd h]
  simp [found, Progress.past, addCapped]

/-- A walk that fails has reported the first of what it would report in a longer buffer. -/
lemma prefix_of_locate {fault : ReadFault} (h : (locate b ts).1 = .error fault) {suffix : Bytes}
    (hlong : (locate (b.extended suffix) ts).1 = .ok ns) :
    (locate b ts).2.notices.toList <+: (locate (b.extended suffix) ts).2.notices.toList := by
  have hends : Ends (fields (b.extended suffix) ts) {} ns (locate (b.extended suffix) ts).2 :=
    Prod.ext hlong rfl
  obtain ⟨ns', q, hrecord, hclose⟩ := ends_bind.mp hends
  have hclosed : q.notices.toList <+: (locate (b.extended suffix) ts).2.notices.toList := by
    obtain ⟨_, _, hget, hclose⟩ := ends_bind.mp hclose
    obtain ⟨rfl, rfl⟩ := ends_get.mp hget
    obtain ⟨u, q', hnotify, hpure⟩ := ends_bind.mp hclose
    rw [← (ends_pure.mp hpure).2]
    exact (foretells_notify _ q u q' hnotify).1
  have hfailed := locate_eq_error_iff.mp (Prod.ext h rfl)
  obtain ⟨-, ns'', -, hshort⟩ := record_foretells b suffix ts {} ns' q hrecord
  rcases hshort with hshort | ⟨fault', p, hshort, hprefix⟩
  · cases hfailed.symm.trans hshort
  · obtain ⟨-, rfl⟩ := Prod.ext_iff.mp (hfailed.symm.trans hshort)
    exact hprefix.trans hclosed

/-- **What is reported is the tree, read off in order.** Where a tree is found, the notices are its
trail, in which nothing is about static values, and one at the end that says how many fields there
are, how long the buffer is and how much of it has been read. Where the walk fails that one is
missing; and if it would have ended with more bytes behind the buffer, then the notices are the
first of those that it would have given. -/
theorem locate_reports (b : Buffer) (ts : List AbiType) :
    (∀ ns, (locate b ts).1 = .ok ns →
      (locate b ts).2.notices.toList =
        trailOf true ns ++ [.fieldsLocated ns.length b.size (locate b ts).2.bytesRead] ∧
      ∀ m ∈ preorderOf ns, m.outOfLine = false → m.trail = []) ∧
    ∀ fault, (locate b ts).1 = .error fault →
      (∀ n ∈ (locate b ts).2.notices, ∀ fields size total, n ≠ .fieldsLocated fields size total) ∧
      ∀ suffix ns, (locate (b.extended suffix) ts).1 = .ok ns →
        (locate b ts).2.notices.toList <+: (locate (b.extended suffix) ts).2.notices.toList := by
  refine ⟨fun ns h => ⟨?_, ?_⟩, fun fault h => ⟨unclosed_of_locate h, fun suffix ns hlong => ?_⟩⟩
  · exact notices_of_locate h
  · obtain ⟨hrow, -⟩ := locate_fst_eq_ok_iff.mp h
    exact static_of_tellsStatic <| hrow.forall₂_of_slots
      (fun t _ _ _ _ hslot hle => hslot.tellsStatic hle) (Nat.zero_le _)
  · exact prefix_of_locate h hlong

/-- The pointer of `unpadded` is followed before the padding is missed; with a word behind, the
fields are located as well. -/
theorem unpadded_reports :
    (locate unpadded.strict [.bytes]).1 = .error (.pastEnd 64 32 67) ∧
    (locate unpadded.strict [.bytes]).2.notices.toList <+:
      [.followed .bytes 32, .fieldsLocated 1 99 67] ∧
    (∀ n ∈ (locate unpadded.strict [.bytes]).2.notices, ∀ fields size total,
      n ≠ .fieldsLocated fields size total) ∧
    (locate (unpadded.strict.extended (List.replicate 32 0)) [.bytes]).2.notices.toList =
      [.followed .bytes 32, .fieldsLocated 1 99 67] := by
  have hstrict : (locate unpadded.strict [.bytes]).1 = .error (.pastEnd 64 32 67) := rfl
  have hloose : (locate unpadded.loose [.bytes]).1 = .ok [.ofPayload .bytes 64 [97, 98, 99]] := rfl
  have hlong : (locate (unpadded.strict.extended (List.replicate 32 0)) [.bytes]).1 =
      .ok [.ofPayload .bytes 64 [97, 98, 99]] := locate_extended hloose (by decide)
  have htold : (locate (unpadded.strict.extended (List.replicate 32 0)) [.bytes]).2.notices.toList =
      [.followed .bytes 32, .fieldsLocated 1 99 67] := by
    have hsize : (unpadded.strict.extended (List.replicate 32 0)).size = 99 := by decide +kernel
    have hread : (locate (unpadded.strict.extended (List.replicate 32 0)) [.bytes]).2.bytesRead =
        67 := by decide +kernel
    rw [((locate_reports _ _).1 _ hlong).1, hsize, hread]
    rfl
  obtain ⟨hopen, hprefix⟩ := (locate_reports unpadded.strict [.bytes]).2 _ hstrict
  exact ⟨hstrict, htold ▸ hprefix _ _ hlong, hopen, htold⟩

end Layout

end AbiSpan
