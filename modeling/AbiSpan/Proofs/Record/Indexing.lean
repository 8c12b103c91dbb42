import AbiSpan.Proofs.Record.Opening
import AbiSpan.Session

/-!
Which node of a record bears which name.

The names of a schema are laid over a row of nodes from front to back. Nothing is asked of the
nodes but their number and the names of their types, and the first place where these are not what
the schema says is reported. No kind of record has a field twice, so every field of the schema
keeps its place, and there is no other. A tree that was found for the types of the schema always
passes, which leaves the walk over the record as the only thing that can keep it from being opened.
-/

namespace AbiSpan

namespace Schema

variable {s : Schema} {ns : List Node} {k : ℕ} {f : Field} {t : AbiType} {n : Node}
  {fault : QueryFault} {i : Index}

/-- At this place the types of the schema and of the row have one name. -/
def AgreesAt (s : Schema) (ns : List Node) (k : Nat) : Prop :=
  ∀ f t n, s[k]? = some (f, t) → ns[k]? = some n → n.type.name = t.name

/-- This is the first place where the types have different names, and what stands there. -/
structure DiffersFirst (s : Schema) (ns : List Node) (k : Nat) (f : Field) (t : AbiType)
    (n : Node) : Prop where
  field : s[k]? = some (f, t)
  node : ns[k]? = some n
  differs : n.type.name ≠ t.name
  before : ∀ j < k, s.AgreesAt ns j

/-- What laying the names of a schema over a row of nodes comes to. -/
structure LaysOver (s : Schema) (ns : List Node) (r : Except QueryFault Index) : Prop where
  /-- It succeeds just where there are as many nodes as fields, and their types have one name at
  each place. -/
  ok_iff : (∃ i, r = .ok i) ↔ ns.length = s.length ∧ ∀ k, s.AgreesAt ns k
  /-- A wrong number of nodes is reported whatever their types. -/
  count : ns.length ≠ s.length → r = .error (.countMismatch s.length ns.length)
  /-- If the number is right, the first difference is reported and nothing else. -/
  mismatch : ns.length = s.length → ∀ fault, r = .error fault ↔ ∃ k f t n,
    s.DiffersFirst ns k f t n ∧ fault = .typeMismatch f.name t.name n.type.name
  /-- The field at each place has that place, and other fields have none. -/
  place_iff : ∀ i, r = .ok i → ∀ f k, i.place? f = some k ↔ ∃ t, s[k]? = some (f, t)

/-! ### Where the names differ -/

lemma agreesAt_cons_zero : AgreesAt ((f, t) :: s) (n :: ns) 0 ↔ n.type.name = t.name := by
  simp [AgreesAt]

lemma agreesAt_cons_succ {e : Field × AbiType} :
    AgreesAt (e :: s) (n :: ns) (k + 1) ↔ s.AgreesAt ns k := by
  simp [AgreesAt]

/-- All fields are entered just where no types differ. -/
lemma exists_enter_iff {place : ℕ} : (∃ j, enter i place s ns = .ok j) ↔ ∀ k, s.AgreesAt ns k := by
  induction s generalizing ns i place with
  | nil => simp [enter, AgreesAt]
  | cons e s ih =>
    obtain ⟨f, t⟩ := e
    cases ns with
    | nil => simp [enter, AgreesAt]
    | cons n ns =>
      rw [enter]
      constructor
      · intro h k
        split at h
        · rename_i hname
          cases k with
          | zero => exact agreesAt_cons_zero.mpr hname.symm
          | succ k => exact agreesAt_cons_succ.mpr (ih.mp h k)
        · obtain ⟨j, hj⟩ := h
          cases hj
      · intro h
        rw [if_pos (agreesAt_cons_zero.mp (h 0)).symm, ih]
        exact fun k => agreesAt_cons_succ.mp (h (k + 1))

lemma differsFirst_cons_succ {e : Field × AbiType} {m : Node}
    (h : DiffersFirst (e :: s) (m :: ns) (k + 1) f t n) : s.DiffersFirst ns k f t n where
  field := h.field
  node := h.node
  differs := h.differs
  before j hj := agreesAt_cons_succ.mp (h.before (j + 1) (by omega))

lemma DiffersFirst.cons {e : Field × AbiType} {m : Node} (h : s.DiffersFirst ns k f t n)
    (hname : m.type.name = e.2.name) : DiffersFirst (e :: s) (m :: ns) (k + 1) f t n where
  field := h.field
  node := h.node
  differs := h.differs
  before j hj := by
    cases j with
    | zero => exact agreesAt_cons_zero.mpr hname
    | succ j => exact agreesAt_cons_succ.mpr (h.before j (by omega))

/-- The first difference of types is what keeps the fields from being entered. -/
lemma enter_eq_error_iff {place : ℕ} : enter i place s ns = .error fault ↔ ∃ k f t n,
    s.DiffersFirst ns k f t n ∧ fault = .typeMismatch f.name t.name n.type.name := by
  induction s generalizing ns i place with
  | nil =>
    simp only [enter, reduceCtorEq, false_iff]
    rintro ⟨k, f, t, n, ⟨hf, -⟩, -⟩
    cases hf
  | cons e s ih =>
    obtain ⟨f, t⟩ := e
    cases ns with
    | nil =>
      simp only [enter, reduceCtorEq, false_iff]
      rintro ⟨k, f, t, n, ⟨-, hn, -⟩, -⟩
      cases hn
    | cons n ns =>
      rw [enter]
      split
      · rename_i hname
        rw [ih]
        constructor
        · rintro ⟨k, g, u, m, hfirst, rfl⟩
          exact ⟨k + 1, g, u, m, hfirst.cons hname.symm, rfl⟩
        · rintro ⟨k, g, u, m, hfirst, rfl⟩
          cases k with
          | zero =>
            obtain ⟨hf, hn, hdiffers, -⟩ := hfirst
            cases hf
            cases hn
            exact absurd hname.symm hdiffers
          | succ k => exact ⟨k, g, u, m, differsFirst_cons_succ hfirst, rfl⟩
      · rename_i hname
        constructor
        · rintro ⟨⟩
          exact ⟨0, f, t, n, ⟨rfl, rfl, fun h => hname h.symm, fun j hj => by omega⟩, rfl⟩
        · rintro ⟨k, g, u, m, hfirst, rfl⟩
          cases k with
          | zero =>
            obtain ⟨hf, hn, -, -⟩ := hfirst
            cases hf
            cases hn
            rfl
          | succ k =>
            exact absurd (agreesAt_cons_zero.mp (hfirst.before 0 (by omega))).symm hname

/-! ### Places -/

/-- Entered into an index, different fields have the places of the row, and other fields keep
theirs. -/
lemma place?_enter {j : Index} {place : ℕ} (hnodup : (s.map (·.1)).Nodup)
    (hlength : ns.length = s.length) (h : enter i place s ns = .ok j) :
    j.place? f = some k ↔ (∃ k', (s.map (·.1))[k']? = some f ∧ k = place + k') ∨
      f ∉ s.map (·.1) ∧ i.place? f = some k := by
  induction s generalizing ns i place with
  | nil =>
    cases h
    simp
  | cons e s ih =>
    obtain ⟨g, t⟩ := e
    obtain ⟨hg, hnodup⟩ := List.nodup_cons.mp hnodup
    replace hg : g ∉ s.map (·.1) := hg
    cases ns with
    | nil => cases hlength
    | cons n ns =>
      rw [enter] at h
      split at h
      · rw [ih hnodup (Nat.succ.inj hlength) h, Index.place?_insert]
        by_cases hf : f = g
        · -- its place is given here and not changed by what follows
          subst hf
          have hlater : ¬ ∃ k', (s.map (·.1))[k']? = some f ∧ k = place + 1 + k' := by
            rintro ⟨k', hk', -⟩
            exact hg (List.mem_of_getElem? hk')
          simp only [hlater, hg, not_false_iff, if_true, true_and, false_or, Option.some.injEq,
            List.map_cons, List.mem_cons, not_true, false_and, or_false]
          constructor
          · rintro rfl
            exact ⟨0, rfl, rfl⟩
          · rintro ⟨k', hk', rfl⟩
            cases k' with
            | zero => rfl
            | succ k' =>
              have hmem : f ∈ s.map (·.1) := List.mem_of_getElem? hk'
              exact absurd hmem hg
        · simp only [List.map_cons, List.mem_cons, hf, if_false, false_or]
          refine or_congr_left ⟨?_, ?_⟩
          · rintro ⟨k', hk', rfl⟩
            exact ⟨k' + 1, hk', by omega⟩
          · rintro ⟨k', hk', rfl⟩
            cases k' with
            | zero => exact absurd (Option.some.inj hk').symm hf
            | succ k' => exact ⟨k', hk', by omega⟩
      · cases h

lemma getElem?_map_fst : (s.map (·.1))[k]? = some f ↔ ∃ t, s[k]? = some (f, t) := by
  rw [List.getElem?_map, Option.map_eq_some_iff]
  constructor
  · rintro ⟨⟨g, t⟩, hk, rfl⟩
    exact ⟨t, hk⟩
  · rintro ⟨t, hk⟩
    exact ⟨(f, t), hk, rfl⟩

/-- No record has a field twice. -/
lemma nodup_ofKind (e : Edition) (k : TxKind) : ((ofKind e k).map (·.1)).Nodup := by
  cases e
  cases k <;> decide

/-! ### Laying names over nodes -/

lemma index_of_length_ne (h : ns.length ≠ s.length) :
    s.index ns = .error (.countMismatch s.length ns.length) := by
  rw [index, if_pos fun heq => h heq.symm]

lemma index_of_length_eq (h : ns.length = s.length) : s.index ns = enter [] 0 s ns := by
  rw [index, if_neg (not_not_intro h.symm)]

/-- If the row is too long or too short, there is no index. -/
lemma length_of_index (h : s.index ns = .ok i) : ns.length = s.length := by
  by_contra hne
  rw [index_of_length_ne hne] at h
  cases h

/-- **The names of a schema are laid over nodes place by place.** -/
lemma laysOver_index (h : (s.map (·.1)).Nodup) (ns : List Node) : s.LaysOver ns (s.index ns) where
  ok_iff := by
    constructor
    · intro hok
      obtain ⟨i, hi⟩ := hok
      have hlength := length_of_index hi
      rw [index_of_length_eq hlength] at hi
      exact ⟨hlength, exists_enter_iff.mp ⟨i, hi⟩⟩
    · intro hok
      obtain ⟨hlength, hagrees⟩ := hok
      rw [index_of_length_eq hlength]
      exact exists_enter_iff.mpr hagrees
  count := index_of_length_ne
  mismatch hlength fault := by
    rw [index_of_length_eq hlength]
    exact enter_eq_error_iff
  place_iff i hi f k := by
    have hlength := length_of_index hi
    rw [index_of_length_eq hlength] at hi
    rw [place?_enter h hlength hi, ← getElem?_map_fst]
    simp [Index.place?]

end Schema

namespace Record

variable {tx : Transaction} {receipt : Receipt} {encoded : Bytes} {settings : Settings}
  {library : Library} {r : Record} {notices : List Notice} {tree : List Node}

/-- An opened record has the tree that the walk finds. -/
lemma ofEncoded_tree (h : ofEncoded tx receipt encoded settings library = .ok (r, notices)) :
    (Layout.locate { bytes := encoded, limits := settings.limits } tx.kind.types).1 =
      .ok r.tree := by
  obtain ⟨tree, index, progress, htree, -, rfl, -⟩ := ofEncoded_inv h
  exact congrArg Prod.fst htree

/-- The node of a field stands at the place of the field, and only fields of the kind have one. -/
lemma field?_iff (h : ofEncoded tx receipt encoded settings library = .ok (r, notices))
    {f : Field} {n : Node} :
    r.field? f = some n ↔ ∃ (k : ℕ) (t : AbiType),
      (Schema.ofKind .v1 tx.kind)[k]? = some (f, t) ∧ r.tree[k]? = some n := by
  obtain ⟨tree, index, progress, -, hindex, rfl, -⟩ := ofEncoded_inv h
  have hplace := (Schema.laysOver_index (Schema.nodup_ofKind .v1 tx.kind) tree).place_iff _ hindex
  simp only [field?, Option.bind_eq_some_iff, hplace]
  constructor
  · rintro ⟨k, ⟨t, hk⟩, hn⟩
    exact ⟨k, t, hk, hn⟩
  · rintro ⟨k, t, hk, hn⟩
    exact ⟨k, ⟨t, hk⟩, hn⟩

end Record

namespace Session

/-- How a session opens over encoded bytes, set against the walk over these for the types of the
kind. -/
structure OpensBy (tx : Transaction) (receipt : Receipt) (encoded : Bytes) (settings : Settings)
    (walk : Except ReadFault (List Node)) (r : Except QueryFault Session) : Prop where
  /-- It opens just where the walk finds a tree. -/
  ok_iff : (∃ s, r = .ok s) ↔ ∃ tree, walk = .ok tree
  /-- It fails for nothing but the fault of the walk. -/
  error_iff : ∀ fault, r = .error fault ↔ ∃ cause, walk = .error cause ∧ fault = .reading cause
  /-- The node of a field is the one of the tree at the place of the field. -/
  field : ∀ s tree, r = .ok s → walk = .ok tree → ∀ (k : ℕ) f t,
    (Schema.ofKind .v1 tx.kind)[k]? = some (f, t) → ∃ n, tree[k]? = some n ∧
      s.record.field? f = some n
  /-- Fields that the kind lacks have no node. -/
  absent : ∀ s, r = .ok s → ∀ f, (∀ t, (f, t) ∉ Schema.ofKind .v1 tx.kind) →
    s.record.field? f = none

variable {tx : Transaction} {receipt : Receipt} {encoded : Bytes} {settings : Settings}
  {library : Library}

lemma ofEncoded_error_iff {fault : QueryFault} :
    Session.ofEncoded tx receipt encoded settings library = .error fault ↔
      Record.ofEncoded tx receipt encoded settings library = .error fault := by
  unfold Session.ofEncoded
  cases Record.ofEncoded tx receipt encoded settings library <;> simp [Except.map]

lemma opensBy_of_fault {cause : ReadFault}
    (h : (Layout.locate { bytes := encoded, limits := settings.limits } tx.kind.types).1 =
      .error cause) : OpensBy tx receipt encoded settings (.error cause)
        (Session.ofEncoded tx receipt encoded settings library) := by
  rw [ofEncoded_error_iff.mpr (Record.ofEncoded_of_fault h)]
  refine ⟨by simp, fun fault => ?_, fun _ _ hs => (by cases hs), fun _ hs => (by cases hs)⟩
  simp [eq_comm]

lemma opensBy_of_tree {tree : List Node}
    (h : (Layout.locate { bytes := encoded, limits := settings.limits } tx.kind.types).1 =
      .ok tree) : OpensBy tx receipt encoded settings (.ok tree)
        (Session.ofEncoded tx receipt encoded settings library) := by
  obtain ⟨r, notices, hr, htree⟩ := Record.ofEncoded_of_tree receipt library h
  have hok : Session.ofEncoded tx receipt encoded settings library =
      .ok { record := r, journal := (notices.map Deed.noted).toArray } := by
    rw [Session.ofEncoded, hr]
    rfl
  have hlength : tree.length = (Schema.ofKind .v1 tx.kind).length := by
    have hrow := (Layout.locate_fst_eq_ok_iff.mp h).1.length_eq
    rwa [TxKind.types, Schema.types, List.length_map] at hrow
  rw [hok]
  refine ⟨by simp, fun fault => (by simp), ?_, ?_⟩
  · rintro _ _ ⟨⟩ ⟨⟩ k f t hk
    obtain ⟨hlt, -⟩ := List.getElem?_eq_some_iff.mp hk
    obtain ⟨n, hn⟩ : ∃ n, tree[k]? = some n := ⟨_, List.getElem?_eq_getElem (hlength ▸ hlt)⟩
    exact ⟨n, hn, (Record.field?_iff hr).mpr ⟨k, t, hk, htree.symm ▸ hn⟩⟩
  · rintro _ ⟨⟩ f hf
    by_contra hsome
    obtain ⟨n, hn⟩ := Option.ne_none_iff_exists'.mp hsome
    obtain ⟨k, t, hk, -⟩ := (Record.field?_iff hr).mp hn
    exact hf t (List.mem_of_getElem? hk)

/-- **Names are laid over a record place by place, and only the walk can fail.** The schema of a
kind is laid over any row of nodes of the right number and names, the first difference being the
fault; and encoded bytes open just where the walk for the types of the kind finds a tree, of which
every field of the kind then has the node at its place. -/
theorem opens_by_walk (tx : Transaction) :
    (∀ ns, (Schema.ofKind .v1 tx.kind).LaysOver ns ((Schema.ofKind .v1 tx.kind).index ns)) ∧
    ∀ receipt encoded settings library, OpensBy tx receipt encoded settings
      (Layout.locate { bytes := encoded, limits := settings.limits }
        (Schema.ofKind .v1 tx.kind).types).1
      (Session.ofEncoded tx receipt encoded settings library) := by
  refine ⟨Schema.laysOver_index (Schema.nodup_ofKind .v1 tx.kind),
    fun receipt encoded settings library => ?_⟩
  cases h : (Layout.locate { bytes := encoded, limits := settings.limits } tx.kind.types).1 with
  | error cause => exact opensBy_of_fault h
  | ok tree => exact opensBy_of_tree h

end Session

end AbiSpan
