import AbiSpan.Proofs.Bytes
import AbiSpan.Proofs.Layout.Exact
import AbiSpan.Proofs.Layout.Parallel

/-!
Where everything lies depends on pointers, lengths and counts alone.

A survey is a walk that writes down where it has read numbers, and is the walk in all else. Which
words these are comes out only as the walk goes on, and a walk that ends with a fault has read some
of them too. Any other buffer of the same length that has the same words in these places is walked
in the same way: what it holds elsewhere shows in nothing but the bytes that the nodes have seen.
-/

namespace AbiSpan

/-- A reading that hands out, besides, where it has read numbers; a fault keeps these places. -/
def Surveying (α : Type) : Type := Progress → Except ReadFault α × List Nat × Progress

namespace Surveying

variable {α β γ δ : Type}

instance : Monad Surveying where
  pure a := fun p => (.ok a, [], p)
  bind x f := fun p =>
    match x p with
    | (.ok a, places, p') =>
      let (r, places', p'') := f a p'
      (r, places ++ places', p'')
    | (.error fault, places, p') => (.error fault, places, p')

lemma bind_apply (x : Surveying α) (f : α → Surveying β) (p : Progress) :
    (x >>= f) p =
      match x p with
      | (.ok a, places, p') => ((f a p').1, places ++ (f a p').2.1, (f a p').2.2)
      | (.error fault, places, p') => (.error fault, places, p') := rfl

lemma bind_ok {x : Surveying α} {f : α → Surveying β} {p p' : Progress} {a : α}
    {places : List ℕ} (h : x p = (.ok a, places, p')) :
    (x >>= f) p = ((f a p').1, places ++ (f a p').2.1, (f a p').2.2) := by
  rw [bind_apply, h]

lemma bind_error {x : Surveying α} {f : α → Surveying β} {p p' : Progress} {fault : ReadFault}
    {places : List ℕ} (h : x p = (.error fault, places, p')) :
    (x >>= f) p = (.error fault, places, p') := by
  rw [bind_apply, h]

/-- A reading in which no number is read. -/
def read (x : Reading α) : Surveying α := fun p => ((outcome x p).1, [], (outcome x p).2)

def fail (fault : ReadFault) : Surveying α := fun p => (.error fault, [], p)

def writeDown (place : Nat) : Surveying Unit := fun p => (.ok (), [place], p)

/-- Reads a number. The place is written down once the word has been read, whatever it spells. -/
def index (b : Buffer) : Surveying Nat := do
  let start := (← read Reading.view).position
  let w ← read (Reading.word b)
  writeDown start
  if w.toNat < offsetBound then return w.toNat else fail (.wideWord start)

/-- The reader of a buffer that keeps a survey. -/
def ofBuffer (b : Buffer) : Reader Surveying where
  buffer := b
  view := read Reading.view
  setView v := read (Reading.setView v)
  bytes size unpadded := read (Reading.bytes b size unpadded)
  index := index b
  notify n := read (Reading.notify n)
  fail := fail

/-! ### A reading that follows a survey -/

/-- From wherever they begin, `y` does what the survey `x` does, with values that `R` relates,
provided that all the places that `x` writes down are of a certain sort. -/
def Follows (same : Nat → Prop) {α β : Type} (R : α → β → Prop) (x : Surveying α)
    (y : Reading β) : Prop :=
  ∀ p, (∀ q ∈ (x p).2.1, same q) →
    (∃ a b places p', R a b ∧ x p = (.ok a, places, p') ∧ outcome y p = (.ok b, p')) ∨
    ∃ fault places p', x p = (.error fault, places, p') ∧ outcome y p = (.error fault, p')

variable {same : ℕ → Prop}

lemma follows_pure {R : α → β → Prop} {a : α} {b : β} (h : R a b) :
    Follows same R (pure a) (pure b) := fun p _ => .inl ⟨a, b, [], p, h, rfl, rfl⟩

lemma follows_fail (R : α → β → Prop) (fault : ReadFault) :
    Follows same R (fail fault) (throw fault) := fun p _ => .inr ⟨fault, [], p, rfl, rfl⟩

lemma Follows.bind {R : α → β → Prop} {S : γ → δ → Prop} {x : Surveying α} {y : Reading β}
    {f : α → Surveying γ} {g : β → Reading δ} (h : Follows same R x y)
    (hfg : ∀ a b, R a b → Follows same S (f a) (g b)) : Follows same S (x >>= f) (y >>= g) := by
  intro p hp
  rcases hx : x p with ⟨fault | a, places, p'⟩
  · rw [bind_error hx] at hp ⊢
    rcases h p (by rwa [hx]) with ⟨_, _, _, _, _, hx', _⟩ | ⟨fault', _, _, hx', hy⟩
    · cases hx.symm.trans hx'
    · cases hx.symm.trans hx'
      exact .inr ⟨fault, places, p', rfl, outcome_bind_error hy⟩
  · rw [bind_ok hx] at hp ⊢
    have hplaces : ∀ q ∈ (x p).2.1, same q := fun q hq =>
      hp q (List.mem_append_left _ (by rwa [hx] at hq))
    rcases h p hplaces with ⟨_, b, _, _, hab, hx', hy⟩ | ⟨_, _, _, hx', _⟩
    · cases hx.symm.trans hx'
      rw [outcome_bind_ok hy]
      rcases hfg a b hab p' fun q hq => hp q (List.mem_append_right _ hq) with
        ⟨c, d, places', p'', hcd, hf, hg⟩ | ⟨fault, places', p'', hf, hg⟩
      · exact .inl ⟨c, d, places ++ places', p'', hcd, by rw [hf], hg⟩
      · exact .inr ⟨fault, places ++ places', p'', by rw [hf], hg⟩
    · cases hx.symm.trans hx'

/-- Where nothing is written down, a survey is followed as one reading goes like another. -/
lemma follows_read {R : α → β → Prop} {x : Reading α} {y : Reading β}
    (h : Reading.Unless (fun _ => False) R x y) : Follows same R (read x) y := by
  intro p _
  rcases h p with ⟨a, b, p', hab, hx, hy⟩ | ⟨fault, p', hx, hstop | hy⟩
  · exact .inl ⟨a, b, [], p', hab, by rw [read, hx], hy⟩
  · exact hstop.elim
  · exact .inr ⟨fault, [], p', by rw [read, hx], hy⟩

/-! ### Two buffers -/

variable {b b' : Buffer}

/-- The buffers are of one length, and are read under the same limits. -/
structure Peers (b b' : Buffer) : Prop where
  size_eq : b.size = b'.size
  limits_eq : b.limits = b'.limits

/-- The same bytes stand in both buffers, if they are the same buffer. -/
lemma bytes_unless (h : Peers b b') (size : ℕ) (unpadded : Bool) :
    Reading.Unless (fun _ => False) (fun s s' : Bytes => b = b' → s = s')
      (Reading.bytes b size unpadded) (Reading.bytes b' size unpadded) := by
  refine (Reading.unless_refl _).bind fun v _ hv => ?_
  subst hv
  have hend : v.readEnd b size unpadded = v.readEnd b' size unpadded := by
    simp only [View.readEnd, h.size_eq, h.limits_eq]
  have hcharge : Reading.charge b size = Reading.charge b' size := by
    simp only [Reading.charge, h.size_eq, h.limits_eq]
  rw [hend, hcharge]
  refine (Reading.unless_refl _).bind fun stop _ hstop => ?_
  subst hstop
  refine (Reading.unless_refl _).bind fun _ _ _ => ?_
  refine (Reading.unless_refl _).bind fun _ _ _ p => ?_
  exact .inl ⟨_, _, p, fun hb => by rw [hb], rfl, rfl⟩

/-- The same word stands at this place in both buffers. -/
def SameWord (b b' : Buffer) (place : Nat) : Prop :=
  b.bytes.slice? place wordSize = b'.bytes.slice? place wordSize

/-- A word is read alike, or not at all, where the same word stands in both buffers. -/
lemma outcome_word_eq (h : Peers b b') {p : Progress} :
    (∃ fault p', outcome (Reading.word b) p = (.error fault, p') ∧
      outcome (Reading.word b') p = (.error fault, p')) ∨
    ∃ w p', outcome (Reading.word b) p = (.ok w, p') ∧
      (SameWord b b' p.view.position → outcome (Reading.word b') p = (.ok w, p')) := by
  rcases bytes_unless h wordSize false p with ⟨w, _, p', _, hb, _⟩ | ⟨fault, p', hb, hstop | hb'⟩
  · refine .inr ⟨w, p', hb, fun hsame => ?_⟩
    obtain ⟨hw, hp', hallow⟩ := Reading.ends_word.mp hb
    refine Reading.ends_word.mpr ⟨hsame ▸ hw, hp', ?_⟩
    unfold Buffer.Allows at hallow ⊢
    rwa [← h.limits_eq, ← h.size_eq]
  · exact hstop.elim
  · exact .inl ⟨fault, p', hb, hb'⟩

/-- A number is read alike where the word is the same. -/
lemma follows_index (h : Peers b b') :
    Follows (SameWord b b') Eq (index b) (Reading.index b') := by
  intro p hp
  have hview : read Reading.view p = (.ok p.view, [], p) := rfl
  have hview' : outcome Reading.view p = (.ok p.view, p) := rfl
  rw [index, bind_ok hview] at hp ⊢
  rw [Reading.index, outcome_bind_ok hview']
  rcases outcome_word_eq h (p := p) with ⟨fault, p', hb, hb'⟩ | ⟨w, p', hb, hb'⟩
  · have hstep : read (Reading.word b) p = (.error fault, [], p') := by rw [read, hb]
    rw [bind_error hstep]
    exact .inr ⟨fault, [], p', rfl, outcome_bind_error hb'⟩
  · have hstep : read (Reading.word b) p = (.ok w, [], p') := by rw [read, hb]
    have hwrite : writeDown p.view.position p' = (.ok (), [p.view.position], p') := rfl
    rw [bind_ok hstep, bind_ok hwrite] at hp ⊢
    rw [outcome_bind_ok (hb' (hp _ (by simp)))]
    by_cases hlt : w.toNat < offsetBound
    · rw [if_pos hlt, if_pos hlt]
      exact .inl ⟨_, _, [p.view.position], p', rfl, rfl, rfl⟩
    · rw [if_neg hlt, if_neg hlt]
      exact .inr ⟨_, [p.view.position], p', rfl, rfl⟩

end Surveying

/-! ### Trees up to the bytes seen -/

namespace Node

mutual

/-- The node without the bytes that were seen while it was made, nor those below it. -/
def outline : Node → Node
  | ⟨type, offset, size, outOfLine, _, children⟩ =>
    ⟨type, offset, size, outOfLine, none, outlines children⟩

def outlines : List Node → List Node
  | [] => []
  | c :: cs => c.outline :: outlines cs

end

/-- The nodes differ in the bytes seen at most, and only if `differ`. -/
def Alike (differ : Prop) (n n' : Node) : Prop := n.outline = n'.outline ∧ (¬ differ → n = n')

lemma outlines_eq_of_alike {differ : Prop} {ns ns' : List Node}
    (h : List.Forall₂ (Alike differ) ns ns') : outlines ns = outlines ns' := by
  induction h with
  | nil => rfl
  | cons hn _ ih => rw [outlines, outlines, hn.1, ih]

lemma eq_of_alike {differ : Prop} {ns ns' : List Node} (h : List.Forall₂ (Alike differ) ns ns')
    (hsame : ¬ differ) : ns = ns' := by
  induction h with
  | nil => rfl
  | cons hn _ ih => rw [hn.2 hsame, ih]

end Node

namespace Surveying

open Node

variable {b b' : Buffer}

/-- A walk over one buffer follows the survey of the other. -/
lemma parallel_of_peers (h : Peers b b') : (ofBuffer b).Parallel (Reader.ofBuffer b')
    (Follows (SameWord b b')) (fun s s' => b = b' → s = s') (Alike (b ≠ b')) where
  size_eq := h.size_eq
  pure := follows_pure
  bind := .bind
  view := follows_read (Reading.unless_refl _)
  setView _ := follows_read (Reading.unless_refl _)
  bytes size unpadded := follows_read (bytes_unless h size unpadded)
  index := follows_index h
  notify _ := follows_read (Reading.unless_refl _)
  fail := follows_fail
  leaf _ _ _ _ _ _ hs := ⟨rfl, fun hb => by rw [hs (not_not.mp hb)]⟩
  compound type offset outOfLine ns ns' hns := by
    refine ⟨?_, fun hb => ?_⟩
    · simp only [Layout.compound, outline, outlines_eq_of_alike hns]
    · rw [eq_of_alike hns hb]

end Surveying

namespace Layout

open Node Surveying

variable {b b' : Buffer}

/-- The walk that `locate` makes, with a survey kept. -/
def surveying (b : Buffer) (ts : List AbiType) : Surveying (List Node) := do
  let nodes ← (Surveying.ofBuffer b).record ts
  read do
    Reading.notify (.fieldsLocated nodes.length b.size (← get).bytesRead)
    return nodes

/-- What `locate` comes to, the places where it reads a pointer, a length or a count, in the order
in which it does, and the progress it leaves. -/
def survey (b : Buffer) (ts : List AbiType) : Except ReadFault (List Node) × List Nat × Progress :=
  surveying b ts {}

def consulted (b : Buffer) (ts : List AbiType) : List Nat := (survey b ts).2.1

lemma follows_surveying (h : Peers b b') (ts : List AbiType) :
    Follows (SameWord b b') (List.Forall₂ (Alike (b ≠ b'))) (surveying b ts) (fields b' ts) := by
  have hrecord := (parallel_of_peers h).record ts
  rw [Reader.record_ofBuffer] at hrecord
  refine hrecord.bind fun ns ns' hns => follows_read ?_
  rw [h.size_eq, hns.length_eq]
  refine (Reading.unless_refl _).bind fun p _ hp => ?_
  subst hp
  exact (Reading.unless_refl _).bind fun _ _ _ p => .inl ⟨ns, ns', p, hns, rfl, rfl⟩

/-- Keeping a survey changes nothing. -/
lemma survey_erased (b : Buffer) (ts : List AbiType) :
    ((survey b ts).1, (survey b ts).2.2) = locate b ts := by
  rcases follows_surveying ⟨rfl, rfl⟩ ts {} fun _ _ => rfl with
    ⟨ns, ns', places, p, hns, hs, hl⟩ | ⟨fault, places, p, hs, hl⟩
  · rw [eq_of_alike hns (not_not.mpr rfl)] at hs
    rw [survey, hs]
    exact hl.symm
  · rw [survey, hs]
    exact hl.symm

/-- Where the words agree that are consulted, the trees have one outline. -/
lemma locate_of_sameWord (h : Peers b b') {ts : List AbiType}
    (hsame : ∀ q ∈ consulted b ts, SameWord b b' q) :
    (locate b' ts).1.map outlines = (locate b ts).1.map outlines ∧
      (locate b' ts).2 = (locate b ts).2 := by
  rw [← survey_erased b ts]
  rcases follows_surveying h ts {} hsame with
    ⟨ns, ns', places, p, hns, hs, hl⟩ | ⟨fault, places, p, hs, hl⟩
  · have hl' : locate b' ts = (.ok ns', p) := hl
    rw [survey, hs, hl']
    exact ⟨congrArg Except.ok (outlines_eq_of_alike hns).symm, rfl⟩
  · have hl' : locate b' ts = (.error fault, p) := hl
    rw [survey, hs, hl']
    exact ⟨rfl, rfl⟩

/-- **Where everything lies depends on pointers, lengths and counts alone.** Which words these
are is found out by the walk itself; to keep a survey of them changes neither the end nor the
progress. With any other bytes of the same length that have the same words there, `locate` ends
with the same fault, or with a tree that has the same types, offsets, sizes and children everywhere,
and leaves the same progress. So what is written over bytes beside these words moves nothing. -/
theorem locate_of_agree (b : Buffer) (ts : List AbiType) :
    ((survey b ts).1, (survey b ts).2.2) = locate b ts ∧
    (∀ bytes : Bytes, bytes.length = b.size →
      (∀ q ∈ consulted b ts, bytes.slice? q wordSize = b.bytes.slice? q wordSize) →
        (locate { b with bytes } ts).1.map outlines = (locate b ts).1.map outlines ∧
          (locate { b with bytes } ts).2 = (locate b ts).2) ∧
    (∀ (pos : Nat) (s : Bytes), pos + s.length ≤ b.size →
      (∀ q ∈ consulted b ts, q + wordSize ≤ pos ∨ pos + s.length ≤ q) →
        (locate { b with bytes := b.bytes.overwrite pos s } ts).1.map outlines =
            (locate b ts).1.map outlines ∧
          (locate { b with bytes := b.bytes.overwrite pos s } ts).2 = (locate b ts).2) := by
  have hagree (bytes : Bytes) (hlen : bytes.length = b.size)
      (hwords : ∀ q ∈ consulted b ts, bytes.slice? q wordSize = b.bytes.slice? q wordSize) :
      (locate { b with bytes } ts).1.map outlines = (locate b ts).1.map outlines ∧
        (locate { b with bytes } ts).2 = (locate b ts).2 := by
    have hpeers : Surveying.Peers b { b with bytes } := ⟨hlen.symm, rfl⟩
    exact locate_of_sameWord hpeers fun q hq => (hwords q hq).symm
  refine ⟨survey_erased b ts, hagree, fun pos s hle hbeside => ?_⟩
  exact hagree _ (Bytes.length_overwrite hle) fun q hq => Bytes.slice?_overwrite hle (hbeside q hq)

/-- Both fields of `sharedTail` lie where they lie, whatever the byte is that they share. -/
theorem sharedTail_overwritten :
    consulted sharedTail [.bytes, .bytes] = [0, 64, 32, 64] ∧
    (locate { sharedTail with bytes := sharedTail.bytes.overwrite 96 [9] }
      [.bytes, .bytes]).1.map outlines = (locate sharedTail [.bytes, .bytes]).1.map outlines := by
  have hconsulted : consulted sharedTail [.bytes, .bytes] = [0, 64, 32, 64] := by decide +kernel
  refine ⟨hconsulted, ((locate_of_agree sharedTail [.bytes, .bytes]).2.2 96 [9] ?_ ?_).1⟩
  · decide +kernel
  · rw [hconsulted]
    decide

end Layout

end AbiSpan
