import AbiSpan.Proofs.Layout.Static

/-!
The walk over any reader, and two walks side by side.

The walk looks at nothing itself. It asks a reader for the view, for bytes and for numbers, and
tells it what to report; how long the buffer is, is all that it knows besides. `Reader.record` is
the walk with its reader left open, and over the reader of a buffer it is `Layout.record`. So what
two readers have in common, each time they are asked the same, two walks over them have in common.
`Paired` says what is asked of two readers, and one induction over the types does the rest. It asks
for as little as the walk needs: `Displaced` asks more of single reads, of a reader that has more
bytes in front than the other, and `Parallel` is the case where it has not.
-/

namespace AbiSpan

/-- The fault that it would be with `k` more bytes in front of the buffer. -/
def ReadFault.moved (k : Nat) : ReadFault → ReadFault
  | .pastEnd offset length bufferSize => .pastEnd (offset + k) length (bufferSize + k)
  | .jumpPastView offset viewSize => .jumpPastView (offset + k) (viewSize + k)
  | .strayPointer pointer position bufferSize =>
    .strayPointer pointer (position + k) (bufferSize + k)
  | .inflated bytesRead bufferSize maxInflation => .inflated bytesRead (bufferSize + k) maxInflation
  | .wideWord offset => .wideWord (offset + k)
  | .unsupportedType type => .unsupportedType type

@[simp] lemma ReadFault.moved_zero (fault : ReadFault) : fault.moved 0 = fault := by
  cases fault <;> rfl

/-- What a walk is made with: a way to look at a buffer, to report and to fail. -/
structure Reader (m : Type → Type) where
  /-- The buffer, of which the walk itself uses the length. -/
  buffer : Buffer
  view : m View
  setView : View → m Unit
  bytes : (size : Nat) → (unpadded : Bool) → m Bytes
  /-- A word that holds a pointer, a length or a count. -/
  index : m Nat
  notify : Notice → m Unit
  fail : {α : Type} → ReadFault → m α

namespace Reader

open Layout (compound)

variable {m : Type → Type} [Monad m] {α : Type}

/-- The same `n` times over. -/
def times : Nat → m α → m (List α)
  | 0, _ => return []
  | n + 1, x => return (← x) :: (← times n x)

variable (r : Reader m)

/-- Reads through another view, then goes on with this one. -/
def within (v : View) (x : m α) : m α := do
  let outer ← r.view
  r.setView v
  let a ← x
  r.setView outer
  return a

/-- Reads a pointer and opens a view at what it points to. -/
def pointer : m View := do
  let v ← r.view
  let target ← r.index
  if v.base + target ≤ r.buffer.size then return { base := v.base + target }
  else r.fail (.strayPointer target v.position r.buffer.size)

/-- A view that starts at the next read. -/
def heads : m View := do
  match (← r.view).openAhead r.buffer 0 with
  | .ok v => return v
  | .error fault => r.fail fault

def word (type : AbiType) : m Node := do
  let offset := (← r.view).position
  return .ofWord type offset (← r.bytes wordSize false)

def payload (type : AbiType) : m Node := do
  let size ← r.index
  let offset := (← r.view).position
  let value ← r.bytes size true
  return { type, offset, size := some size, outOfLine := true, value := some value, children := [] }

def count : m Nat := do
  let start := (← r.view).position
  let n ← r.index
  if n ≤ (← r.view).remaining r.buffer then return n
  else r.fail (.pastEnd start n r.buffer.size)

def refuse (type : AbiType) : m α := r.fail (.unsupportedType type.name)

mutual

/-- A static value at the next read. -/
def inPlace : AbiType → m Node
  | .fixedArray t n => do
    let offset := (← r.view).position
    return compound (.fixedArray t n) offset false (← times n (inPlace t))
  | .tuple ts => do
    let offset := (← r.view).position
    return compound (.tuple ts) offset false (← inPlaceAll ts)
  | type => if type.isScalar then r.word type else r.refuse type

def inPlaceAll : List AbiType → m (List Node)
  | [] => return []
  | t :: ts => return (← inPlace t) :: (← inPlaceAll ts)

end

/-- A slot: the value itself, or a pointer to where `outOfLine` reads it. -/
def slot (type : AbiType) (outOfLine : m Node) : m Node := do
  if type.isDynamic then
    let v ← r.pointer
    r.notify (.followed type v.base)
    r.within v outOfLine
  else r.inPlace type

/-- An element of an array whose elements are dynamic. -/
def pointed (outOfLine : m Node) : m Node := do r.within (← r.pointer) outOfLine

/-- The elements of an array, once they have been counted. -/
def elements (type : AbiType) (outOfLine : m Node) (n : Nat) : m (List Node) := do
  if type.isDynamic then
    let heads ← r.heads
    r.within heads (times n (r.pointed outOfLine))
  else times n (r.inPlace type)

mutual

/-- A dynamic value at the start of the view. -/
def outOfLine : AbiType → m Node
  | .bytes => r.payload .bytes
  | .string => r.payload .string
  | .array t => do
    let start := (← r.view).base
    let n ← r.count
    let children ← r.elements t (outOfLine t) n
    r.notify (.arrayLocated (.array t) start n)
    return compound (.array t) start true children
  | .fixedArray t n => do
    let start := (← r.view).base
    return compound (.fixedArray t n) start true (← times n (r.slot t (outOfLine t)))
  | .tuple ts => do
    let start := (← r.view).base
    return compound (.tuple ts) start true (← record ts)
  | type => r.refuse type

/-- A row of slots. -/
def record : List AbiType → m (List Node)
  | [] => return []
  | t :: ts => return (← r.slot t (outOfLine t)) :: (← record ts)

end

/-! ### The walk, by the shape of the type -/

variable {r : Reader m} {t : AbiType} {ts : List AbiType}

lemma times_slot (n : ℕ) :
    times n (r.slot t (r.outOfLine t)) = r.record (List.replicate n t) := by
  induction n with
  | zero => rfl
  | succ n ih => rw [times, ih, List.replicate_succ, record]

lemma slot_static {x : m Node} (hd : t.isDynamic = false) : r.slot t x = r.inPlace t := by
  simp [slot, hd]

lemma slot_dynamic {x : m Node} (hd : t.isDynamic = true) : r.slot t x = (do
    let v ← r.pointer
    r.notify (.followed t v.base)
    r.within v x) := by
  simp [slot, hd]

lemma outOfLine_payload (ht : t.isPayload = true) : r.outOfLine t = r.payload t := by
  cases t <;> first | rfl | cases ht

lemma outOfLine_row (hm : t.members? = some ts) : r.outOfLine t = do
    let start := (← r.view).base
    return compound t start true (← r.record ts) := by
  cases t with
  | fixedArray t n => cases hm; rw [outOfLine, times_slot]
  | tuple ts => cases hm; rw [outOfLine]
  | _ => cases hm

/-! ### The reader of a buffer -/

/-- The reader that the walk of the library is made with. -/
def ofBuffer (b : Buffer) : Reader Reading where
  buffer := b
  view := Reading.view
  setView := Reading.setView
  bytes := Reading.bytes b
  index := Reading.index b
  notify := Reading.notify
  fail := throw

variable {b : Buffer}

lemma times_ofBuffer (n : ℕ) (x : Reading α) : times n x = Reading.times n x := by
  induction n with
  | zero => rfl
  | succ n ih => rw [times, Reading.times, ih]

lemma heads_ofBuffer : (ofBuffer b).heads =
    (Reading.view >>= fun v => MonadExcept.ofExcept (v.openAhead b 0)) := by
  refine congrArg (Reading.view >>= ·) (funext fun v => ?_)
  dsimp only [ofBuffer]
  cases v.openAhead b 0 <;> rfl

mutual

theorem inPlace_ofBuffer : ∀ t, (ofBuffer b).inPlace t = Layout.inPlace b t
  | .fixedArray t n => by
    rw [inPlace, Layout.inPlace, inPlace_ofBuffer t, times_ofBuffer]
    rfl
  | .tuple ts => by
    rw [inPlace, Layout.inPlace, inPlaceAll_ofBuffer ts]
    rfl
  | .bool | .int _ | .uint _ | .fixedBytes _ | .address | .function | .bytes | .string
  | .array _ => rfl

theorem inPlaceAll_ofBuffer : ∀ ts, (ofBuffer b).inPlaceAll ts = Layout.inPlaceAll b ts
  | [] => rfl
  | t :: ts => by rw [inPlaceAll, Layout.inPlaceAll, inPlace_ofBuffer t, inPlaceAll_ofBuffer ts]

end

lemma elements_ofBuffer (t : AbiType) (n : ℕ) :
    (ofBuffer b).elements t (Layout.outOfLine b t) n = Layout.elements b t n := by
  rw [elements, Layout.elements, heads_ofBuffer, inPlace_ofBuffer, times_ofBuffer]
  simp only [times_ofBuffer, bind_assoc]
  rfl

lemma slot_ofBuffer (t : AbiType) (x : Reading Node) :
    (ofBuffer b).slot t x = Layout.slot b t x := by
  rw [slot, Layout.slot, inPlace_ofBuffer]
  rfl

mutual

theorem outOfLine_ofBuffer : ∀ t, (ofBuffer b).outOfLine t = Layout.outOfLine b t
  | .array t => by
    rw [outOfLine, Layout.outOfLine_array, outOfLine_ofBuffer t]
    simp only [elements_ofBuffer]
    rfl
  | .fixedArray t n => by
    rw [outOfLine, Layout.outOfLine, outOfLine_ofBuffer t, slot_ofBuffer, times_ofBuffer]
    rfl
  | .tuple ts => by
    rw [outOfLine, Layout.outOfLine, record_ofBuffer ts]
    rfl
  | .bool | .int _ | .uint _ | .fixedBytes _ | .address | .function | .bytes | .string => rfl

/-- Over the reader of a buffer, the walk is the walk of the buffer. -/
theorem record_ofBuffer : ∀ ts, (ofBuffer b).record ts = Layout.record b ts
  | [] => rfl
  | t :: ts => by
    rw [record, Layout.record, outOfLine_ofBuffer t, slot_ofBuffer, record_ofBuffer ts]

end

/-! ### Walks that go alike -/

/-- Two readers that answer alike whatever a walk asks of them. `rel R x y` says that `x` and `y`
go alike, with values that `R` relates; views are related by `V` and nodes by `N`, and what names a
place for the first reader names one that is `k` further on for the second. A payload is read
through a view of its own, and nothing is asked of what it leaves of that. -/
structure Paired {m m' : Type → Type} [Monad m] [Monad m'] (k : Nat) (r : Reader m)
    (r' : Reader m') (rel : {α β : Type} → (α → β → Prop) → m α → m' β → Prop)
    (V : View → View → Prop) (N : Node → Node → Prop) : Prop where
  pure : ∀ {α β : Type} {R : α → β → Prop} {a : α} {b : β}, R a b → rel R (pure a) (pure b)
  bind : ∀ {α β γ δ : Type} {R : α → β → Prop} {S : γ → δ → Prop} {x : m α} {y : m' β}
    {f : α → m γ} {g : β → m' δ}, rel R x y → (∀ a b, R a b → rel S (f a) (g b)) →
      rel S (x >>= f) (y >>= g)
  base_eq : ∀ {v v' : View}, V v v' → v'.base = v.base + k
  position_eq : ∀ {v v' : View}, V v v' → v'.position = v.position + k
  view : rel V r.view r'.view
  within : ∀ {α β : Type} {R : α → β → Prop} {v v' : View} {x : m α} {y : m' β}, V v v' →
    rel R x y → rel R (r.within v x) (r'.within v' y)
  heads : rel V r.heads r'.heads
  pointer : rel V r.pointer r'.pointer
  count : rel Eq r.count r'.count
  word : ∀ t, rel N (r.word t) (r'.word t)
  payload : ∀ t {v v' : View}, V v v' →
    rel N (r.within v (r.payload t)) (r'.within v' (r'.payload t))
  followed : ∀ type tail,
    rel Eq (r.notify (.followed type tail)) (r'.notify (.followed type (tail + k)))
  located : ∀ type offset count,
    rel Eq (r.notify (.arrayLocated type offset count))
      (r'.notify (.arrayLocated type (offset + k) count))
  compound : ∀ (type : AbiType) (offset : Nat) (outOfLine : Bool) {ns ns' : List Node},
    List.Forall₂ N ns ns' →
      N (compound type offset outOfLine ns) (compound type (offset + k) outOfLine ns')

namespace Paired

variable {m m' : Type → Type} [Monad m] [Monad m'] {k : ℕ} {r : Reader m} {r' : Reader m'}
  {rel : {α β : Type} → (α → β → Prop) → m α → m' β → Prop} {V : View → View → Prop}
  {N : Node → Node → Prop} {α β : Type} {R : α → β → Prop}

/-- The function type is all that a walk refuses, so only where it occurs need it be refused
alike. -/
def Refuses (r : Reader m) (r' : Reader m')
    (rel : {α β : Type} → (α → β → Prop) → m α → m' β → Prop) (N : Node → Node → Prop)
    (occurs : Bool) : Prop := occurs = true → rel N (r.refuse .function) (r'.refuse .function)

omit [Monad m] [Monad m'] in
lemma Refuses.left {c d : Bool} (h : Refuses r r' rel N (c || d)) : Refuses r r' rel N c :=
  fun hc => h (by rw [hc, Bool.true_or])

omit [Monad m] [Monad m'] in
lemma Refuses.right {c d : Bool} (h : Refuses r r' rel N (c || d)) : Refuses r r' rel N d :=
  fun hd => h (by rw [hd, Bool.or_true])

lemma times (h : Paired k r r' rel V N) {x : m α} {y : m' β} (hxy : rel R x y) (n : ℕ) :
    rel (List.Forall₂ R) (Reader.times n x) (Reader.times n y) := by
  induction n with
  | zero => exact h.pure .nil
  | succ n ih => exact h.bind hxy fun _ _ hab => h.bind ih fun _ _ hs => h.pure (.cons hab hs)

mutual

theorem inPlace (h : Paired k r r' rel V N) : ∀ t : AbiType, t.isDynamic = false →
    Refuses r r' rel N t.usesFunction → rel N (r.inPlace t) (r'.inPlace t)
  | .fixedArray t n, hd, hf => h.bind h.view fun v _ hv => h.position_eq hv ▸
    h.bind (h.times (h.inPlace t hd hf) n) fun _ _ hns =>
      h.pure (h.compound _ v.position false hns)
  | .tuple ts, hd, hf => h.bind h.view fun v _ hv => h.position_eq hv ▸
    h.bind (h.inPlaceAll ts hd hf) fun _ _ hns => h.pure (h.compound _ v.position false hns)
  | .bool, _, _ | .int _, _, _ | .uint _, _, _ | .fixedBytes _, _, _ | .address, _, _ => h.word _
  | .function, _, hf => hf rfl

theorem inPlaceAll (h : Paired k r r' rel V N) :
    ∀ ts : List AbiType, AbiType.anyDynamic ts = false →
      Refuses r r' rel N (AbiType.anyUsesFunction ts) →
        rel (List.Forall₂ N) (r.inPlaceAll ts) (r'.inPlaceAll ts)
  | [], _, _ => h.pure .nil
  | t :: ts, hd, hf =>
    have hds : t.isDynamic = false ∧ AbiType.anyDynamic ts = false := Bool.or_eq_false_iff.mp hd
    h.bind (h.inPlace t hds.1 hf.left) fun _ _ hn =>
      h.bind (h.inPlaceAll ts hds.2 hf.right) fun _ _ hns => h.pure (.cons hn hns)

end

/-- Values behind pointers are read alike through views of their own. -/
def Tails (r : Reader m) (r' : Reader m')
    (rel : {α β : Type} → (α → β → Prop) → m α → m' β → Prop) (V : View → View → Prop)
    (N : Node → Node → Prop) (x : m Node) (y : m' Node) : Prop :=
  ∀ v v', V v v' → rel N (r.within v x) (r'.within v' y)

lemma slot_of_tails (h : Paired k r r' rel V N) (t : AbiType)
    (hf : Refuses r r' rel N t.usesFunction) {x : m Node} {y : m' Node}
    (hxy : t.isDynamic = true → Tails r r' rel V N x y) : rel N (r.slot t x) (r'.slot t y) := by
  unfold Reader.slot
  by_cases hd : t.isDynamic = true
  · rw [if_pos hd, if_pos hd]
    refine h.bind h.pointer fun v v' hv => ?_
    rw [h.base_eq hv]
    exact h.bind (h.followed _ _) fun _ _ _ => hxy hd v v' hv
  · rw [if_neg hd, if_neg hd]
    exact h.inPlace t (by simpa using hd) hf

lemma pointed_of_tails (h : Paired k r r' rel V N) {x : m Node} {y : m' Node}
    (hxy : Tails r r' rel V N x y) : rel N (r.pointed x) (r'.pointed y) :=
  h.bind h.pointer fun v v' hv => hxy v v' hv

lemma elements_of_tails (h : Paired k r r' rel V N) (t : AbiType)
    (hf : Refuses r r' rel N t.usesFunction) {x : m Node} {y : m' Node}
    (hxy : t.isDynamic = true → Tails r r' rel V N x y) (n : ℕ) :
    rel (List.Forall₂ N) (r.elements t x n) (r'.elements t y n) := by
  unfold Reader.elements
  by_cases hd : t.isDynamic = true
  · rw [if_pos hd, if_pos hd]
    exact h.bind h.heads fun _ _ hv => h.within hv (h.times (h.pointed_of_tails (hxy hd)) n)
  · rw [if_neg hd, if_neg hd]
    exact h.times (h.inPlace t (by simpa using hd) hf) n

mutual

theorem tail (h : Paired k r r' rel V N) : ∀ t : AbiType, Refuses r r' rel N t.usesFunction →
    t.isDynamic = true → Tails r r' rel V N (r.outOfLine t) (r'.outOfLine t)
  | .bytes, _, _ | .string, _, _ => fun _ _ hv => h.payload _ hv
  | .array t, hf, _ => fun _ _ hv => h.within hv <| h.bind h.view fun v v' hv =>
    h.bind h.count fun n _ hn => by
      rw [← hn, h.base_eq hv]
      exact h.bind (h.elements_of_tails t hf (h.tail t hf) n) fun _ _ hns =>
        h.bind (h.located _ _ _) fun _ _ _ => h.pure (h.compound _ v.base true hns)
  | .fixedArray t n, hf, _ => fun _ _ hv => h.within hv <| h.bind h.view fun v _ hv =>
    h.base_eq hv ▸ h.bind (h.times (h.slot_of_tails t hf (h.tail t hf)) n) fun _ _ hns =>
      h.pure (h.compound _ v.base true hns)
  | .tuple ts, hf, _ => fun _ _ hv => h.within hv <| h.bind h.view fun v _ hv =>
    h.base_eq hv ▸ h.bind (h.record ts hf) fun _ _ hns => h.pure (h.compound _ v.base true hns)

/-- **Walks over readers that answer alike go alike.** -/
theorem record (h : Paired k r r' rel V N) :
    ∀ ts : List AbiType, Refuses r r' rel N (AbiType.anyUsesFunction ts) →
      rel (List.Forall₂ N) (r.record ts) (r'.record ts)
  | [], _ => h.pure .nil
  | t :: ts, hf => h.bind (h.slot_of_tails t hf.left (h.tail t hf.left)) fun _ _ hn =>
    h.bind (h.record ts hf.right) fun _ _ hns => h.pure (.cons hn hns)

end

end Paired

/-! ### Two walks, one displaced -/

/-- Two readers that answer alike, though the buffer of the second has `k` more bytes in front.
`rel R x y` says that `x` and `y` go alike, with values that `R` relates; views are related by `V`,
bytes by `W` and nodes by `N`, and whatever names a place names one that is `k` further on. -/
structure Displaced {m m' : Type → Type} [Monad m] [Monad m'] (k : Nat) (r : Reader m)
    (r' : Reader m') (rel : {α β : Type} → (α → β → Prop) → m α → m' β → Prop)
    (V : View → View → Prop) (W : Bytes → Bytes → Prop) (N : Node → Node → Prop) : Prop where
  size_eq : r'.buffer.size = r.buffer.size + k
  pure : ∀ {α β : Type} {R : α → β → Prop} {a : α} {b : β}, R a b → rel R (pure a) (pure b)
  bind : ∀ {α β γ δ : Type} {R : α → β → Prop} {S : γ → δ → Prop} {x : m α} {y : m' β}
    {f : α → m γ} {g : β → m' δ}, rel R x y → (∀ a b, R a b → rel S (f a) (g b)) →
      rel S (x >>= f) (y >>= g)
  base_eq : ∀ {v v' : View}, V v v' → v'.base = v.base + k
  position_eq : ∀ {v v' : View}, V v v' → v'.position = v.position + k
  opened : ∀ offset ≤ r.buffer.size, V { base := offset } { base := offset + k }
  view : rel V r.view r'.view
  setView : ∀ {v v' : View}, V v v' → rel Eq (r.setView v) (r'.setView v')
  heads : rel V r.heads r'.heads
  bytes : ∀ size unpadded, rel W (r.bytes size unpadded) (r'.bytes size unpadded)
  index : rel Eq r.index r'.index
  followed : ∀ type tail,
    rel Eq (r.notify (.followed type tail)) (r'.notify (.followed type (tail + k)))
  located : ∀ type offset count,
    rel Eq (r.notify (.arrayLocated type offset count))
      (r'.notify (.arrayLocated type (offset + k) count))
  fail : ∀ {α β : Type} (R : α → β → Prop) (fault : ReadFault),
    rel R (r.fail fault) (r'.fail (fault.moved k))
  leaf : ∀ (type : AbiType) (offset size : Nat) (outOfLine : Bool) {s s' : Bytes}, W s s' →
    N { type, offset, size := some size, outOfLine, value := some s, children := [] }
      { type, offset := offset + k, size := some size, outOfLine, value := some s', children := [] }
  compound : ∀ (type : AbiType) (offset : Nat) (outOfLine : Bool) {ns ns' : List Node},
    List.Forall₂ N ns ns' →
      N (compound type offset outOfLine ns) (compound type (offset + k) outOfLine ns')

namespace Displaced

variable {m m' : Type → Type} [Monad m] [Monad m'] {k : ℕ} {r : Reader m} {r' : Reader m'}
  {rel : {α β : Type} → (α → β → Prop) → m α → m' β → Prop} {V : View → View → Prop}
  {W : Bytes → Bytes → Prop} {N : Node → Node → Prop} {α β : Type} {R : α → β → Prop}

lemma within (h : Displaced k r r' rel V W N) {v v' : View} (hv : V v v') {x : m α} {y : m' β}
    (hxy : rel R x y) : rel R (r.within v x) (r'.within v' y) :=
  h.bind h.view fun _ _ houter => h.bind (h.setView hv) fun _ _ _ => h.bind hxy fun _ _ hab =>
    h.bind (h.setView houter) fun _ _ _ => h.pure hab

/-- Both make the same check. -/
lemma check (h : Displaced k r r' rel V W N) {c c' : Prop} [Decidable c] [Decidable c']
    (hc : c ↔ c') {a : α} {b : β} (hab : c → R a b) (fault : ReadFault) :
    rel R (if c then Pure.pure a else r.fail fault)
      (if c' then Pure.pure b else r'.fail (fault.moved k)) := by
  by_cases hpass : c
  · rw [if_pos hpass, if_pos (hc.mp hpass)]
    exact h.pure (hab hpass)
  · rw [if_neg hpass, if_neg fun hpass' => hpass (hc.mpr hpass')]
    exact h.fail _ _

lemma pointer (h : Displaced k r r' rel V W N) : rel V r.pointer r'.pointer := by
  refine h.bind h.view fun v v' hv => h.bind h.index fun target _ htarget => ?_
  subst htarget
  have htarget : v'.base + target = v.base + target + k := by
    rw [h.base_eq hv]
    omega
  rw [htarget, h.size_eq, h.position_eq hv]
  exact h.check (by omega) (fun hle => h.opened _ hle) _

lemma word (h : Displaced k r r' rel V W N) (t : AbiType) : rel N (r.word t) (r'.word t) := by
  refine h.bind h.view fun v v' hv => ?_
  rw [h.position_eq hv]
  exact h.bind (h.bytes _ _) fun _ _ hs => h.pure (h.leaf t v.position _ false hs)

lemma payload (h : Displaced k r r' rel V W N) (t : AbiType) :
    rel N (r.payload t) (r'.payload t) := by
  refine h.bind h.index fun size _ hsize => h.bind h.view fun v v' hv => ?_
  rw [← hsize, h.position_eq hv]
  exact h.bind (h.bytes _ _) fun _ _ hs => h.pure (h.leaf t v.position size true hs)

lemma count (h : Displaced k r r' rel V W N) : rel Eq r.count r'.count := by
  refine h.bind h.view fun v v' hv => h.bind h.index fun n _ hn => ?_
  refine h.bind h.view fun u u' hu => ?_
  have hleft : u'.remaining r'.buffer = u.remaining r.buffer := by
    rw [View.remaining, View.remaining, h.position_eq hu, h.size_eq, Nat.add_sub_add_right]
  rw [← hn, hleft, h.position_eq hv, h.size_eq]
  exact h.check Iff.rfl (fun _ => rfl) _

lemma paired (h : Displaced k r r' rel V W N) : Paired k r r' rel V N where
  pure := h.pure
  bind := h.bind
  base_eq := h.base_eq
  position_eq := h.position_eq
  view := h.view
  within hv hxy := h.within hv hxy
  heads := h.heads
  pointer := h.pointer
  count := h.count
  word := h.word
  payload t _ _ hv := h.within hv (h.payload t)
  followed := h.followed
  located := h.located
  compound := h.compound

lemma tail (h : Displaced k r r' rel V W N) (t : AbiType) (hd : t.isDynamic = true) :
    Paired.Tails r r' rel V N (r.outOfLine t) (r'.outOfLine t) :=
  h.paired.tail t (fun _ => h.fail _ _) hd

lemma slot (h : Displaced k r r' rel V W N) (t : AbiType) :
    rel N (r.slot t (r.outOfLine t)) (r'.slot t (r'.outOfLine t)) :=
  h.paired.slot_of_tails t (fun _ => h.fail _ _) (h.tail t)

lemma record (h : Displaced k r r' rel V W N) (ts : List AbiType) :
    rel (List.Forall₂ N) (r.record ts) (r'.record ts) := h.paired.record ts fun _ => h.fail _ _

end Displaced

/-! ### Two walks side by side -/

/-- Two readers of buffers of one length that answer alike. `rel R x y` says that `x` and `y` go
alike, with values that `R` relates; bytes are related by `W`, and nodes by `N`. -/
structure Parallel {m m' : Type → Type} [Monad m] [Monad m'] (r : Reader m) (r' : Reader m')
    (rel : {α β : Type} → (α → β → Prop) → m α → m' β → Prop) (W : Bytes → Bytes → Prop)
    (N : Node → Node → Prop) : Prop where
  size_eq : r.buffer.size = r'.buffer.size
  pure : ∀ {α β : Type} {R : α → β → Prop} {a : α} {b : β}, R a b → rel R (pure a) (pure b)
  bind : ∀ {α β γ δ : Type} {R : α → β → Prop} {S : γ → δ → Prop} {x : m α} {y : m' β}
    {f : α → m γ} {g : β → m' δ}, rel R x y → (∀ a b, R a b → rel S (f a) (g b)) →
      rel S (x >>= f) (y >>= g)
  view : rel Eq r.view r'.view
  setView : ∀ v, rel Eq (r.setView v) (r'.setView v)
  bytes : ∀ size unpadded, rel W (r.bytes size unpadded) (r'.bytes size unpadded)
  index : rel Eq r.index r'.index
  notify : ∀ n, rel Eq (r.notify n) (r'.notify n)
  fail : ∀ {α β : Type} (R : α → β → Prop) (fault : ReadFault), rel R (r.fail fault) (r'.fail fault)
  leaf : ∀ (type : AbiType) (offset size : Nat) (outOfLine : Bool) {s s' : Bytes}, W s s' →
    N { type, offset, size := some size, outOfLine, value := some s, children := [] }
      { type, offset, size := some size, outOfLine, value := some s', children := [] }
  compound : ∀ (type : AbiType) (offset : Nat) (outOfLine : Bool) {ns ns' : List Node},
    List.Forall₂ N ns ns' →
    N (compound type offset outOfLine ns) (compound type offset outOfLine ns')

namespace Parallel

variable {m m' : Type → Type} [Monad m] [Monad m'] {r : Reader m} {r' : Reader m'}
  {rel : {α β : Type} → (α → β → Prop) → m α → m' β → Prop} {W : Bytes → Bytes → Prop}
  {N : Node → Node → Prop}

lemma heads (h : Parallel r r' rel W N) : rel Eq r.heads r'.heads := by
  refine h.bind h.view fun v _ hv => ?_
  subst hv
  have hopen : v.openAhead r.buffer 0 = v.openAhead r'.buffer 0 := by
    simp only [View.openAhead, View.openAt, View.length, h.size_eq]
  rw [hopen]
  cases v.openAhead r'.buffer 0 with
  | error fault => exact h.fail _ _
  | ok v' => exact h.pure rfl

/-- Nothing is displaced. -/
lemma displaced (h : Parallel r r' rel W N) : Displaced 0 r r' rel Eq W N where
  size_eq := h.size_eq.symm
  pure := h.pure
  bind := h.bind
  base_eq hv := congrArg View.base hv.symm
  position_eq hv := congrArg View.position hv.symm
  opened _ _ := rfl
  view := h.view
  setView hv := hv ▸ h.setView _
  heads := h.heads
  bytes := h.bytes
  index := h.index
  followed _ _ := h.notify _
  located _ _ _ := h.notify _
  fail R fault := by
    rw [ReadFault.moved_zero]
    exact h.fail R fault
  leaf := h.leaf
  compound := h.compound

/-- Walks over readers of buffers of one length go alike if the readers answer alike. -/
lemma record (h : Parallel r r' rel W N) (ts : List AbiType) :
    rel (List.Forall₂ N) (r.record ts) (r'.record ts) := h.displaced.record ts

end Parallel

end Reader

/-! ### Walks over two buffers -/

namespace Reading

variable {stop : ReadFault → Prop} {α β γ δ : Type}

/-- From wherever they begin, `x` and `y` end alike, with values that `R` relates, unless `x` stops
with a fault of a certain sort. -/
def Unless (stop : ReadFault → Prop) {α β : Type} (R : α → β → Prop) (x : Reading α)
    (y : Reading β) : Prop :=
  ∀ p, (∃ a b p', R a b ∧ outcome x p = (.ok a, p') ∧ outcome y p = (.ok b, p')) ∨
    ∃ fault p', outcome x p = (.error fault, p') ∧ (stop fault ∨ outcome y p = (.error fault, p'))

lemma unless_refl (x : Reading α) : Unless stop Eq x x := by
  intro p
  rcases outcome x p with ⟨fault | a, p'⟩
  · exact .inr ⟨fault, p', rfl, .inr rfl⟩
  · exact .inl ⟨a, a, p', rfl, rfl, rfl⟩

lemma unless_throw (R : α → β → Prop) (fault : ReadFault) :
    Unless stop R (throw fault) (throw fault) := fun p => .inr ⟨fault, p, rfl, .inr rfl⟩

lemma Unless.bind {R : α → β → Prop} {S : γ → δ → Prop} {x : Reading α} {y : Reading β}
    {f : α → Reading γ} {g : β → Reading δ} (h : Unless stop R x y)
    (hfg : ∀ a b, R a b → Unless stop S (f a) (g b)) : Unless stop S (x >>= f) (y >>= g) := by
  intro p
  rcases h p with ⟨a, b, p', hab, hx, hy⟩ | ⟨fault, p', hx, hstop⟩
  · rw [outcome_bind_ok hx, outcome_bind_ok hy]
    exact hfg a b hab p'
  · refine .inr ⟨fault, p', outcome_bind_error hx, hstop.imp_right fun hy => ?_⟩
    exact outcome_bind_error hy

/-- If single reads of two buffers of one length go alike, so do walks. -/
lemma parallel_of_bytes {b b' : Buffer} (hsize : b.size = b'.size)
    (hbytes : ∀ size unpadded, Unless stop Eq (bytes b size unpadded) (bytes b' size unpadded)) :
    (Reader.ofBuffer b).Parallel (Reader.ofBuffer b') (Unless stop) Eq Eq where
  size_eq := hsize
  pure hab p := .inl ⟨_, _, p, hab, rfl, rfl⟩
  bind := .bind
  view := unless_refl _
  setView _ := unless_refl _
  bytes := hbytes
  index := .bind (unless_refl _) fun v _ hv => .bind (hbytes _ _) fun _ _ hw =>
    hv ▸ hw ▸ unless_refl _
  notify _ := unless_refl _
  fail := unless_throw
  leaf _ _ _ _ _ _ hs := by rw [hs]
  compound _ _ _ _ _ hns := by rw [List.forall₂_eq_eq_eq] at hns; rw [hns]

end Reading

/-- If single reads of two buffers of one length end alike, unless those of the first stop with a
fault of a certain sort, then so do the walks. -/
theorem Layout.locate_eq_or {b b' : Buffer} {stop : ReadFault → Prop} (hsize : b.size = b'.size)
    (hbytes : ∀ size unpadded,
      Reading.Unless stop Eq (Reading.bytes b size unpadded) (Reading.bytes b' size unpadded))
    (ts : List AbiType) : locate b ts = locate b' ts ∨
      ∃ fault, stop fault ∧ (locate b ts).1 = .error fault := by
  have hrecord := (Reading.parallel_of_bytes hsize hbytes).record ts
  rw [Reader.record_ofBuffer, Reader.record_ofBuffer, List.forall₂_eq_eq_eq] at hrecord
  have hfields : Reading.Unless stop Eq (fields b ts) (fields b' ts) :=
    hrecord.bind fun ns _ hns => by
      rw [hsize, ← hns]
      exact Reading.unless_refl _
  rcases hfields {} with ⟨ns, _, p, rfl, hb, hb'⟩ | ⟨fault, p, hb, hstop | hb'⟩
  · exact .inl (hb.trans hb'.symm)
  · exact .inr ⟨fault, hstop, congrArg Prod.fst hb⟩
  · exact .inl (hb.trans hb'.symm)

end AbiSpan
