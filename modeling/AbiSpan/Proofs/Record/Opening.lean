import AbiSpan.Record
import AbiSpan.Proofs.Layout.RoundTrip

/-!
Which records open.

A record opens if its bytes are laid out as the schema of its kind says. Laying the names of the
schema over the tree comes after that and cannot fail, since the tree was found for the types of
the same schema; and the number in the field `type` is not looked at. So a record of one kind is
kept from being opened as another only by what happens to stand where the other kind has pointers:
a number that leads out of the record there is a fault, and small numbers let the record through,
with its fields taken from the slots of others.
-/

namespace AbiSpan

namespace Layout

variable {b : Buffer} {base pos start : ℕ} {t : AbiType} {ts : List AbiType} {n : Node}
  {ns : List Node}

/-- What the strictest limits let pass, all limits let pass. -/
lemma locate_of_strict {bytes : Bytes} {limits : Limits}
    (h : (locate { bytes, limits := { maxInflation := 1 } } ts).1 = .ok ns) :
    (locate { bytes, limits } ts).1 = .ok ns := by
  have hreads : Buffer.ReadsIn { bytes, limits := { maxInflation := 1 } } { bytes, limits } := by
    refine ⟨id, fun {pos size} hroom => ?_⟩
    unfold Buffer.HasRoom at hroom ⊢
    have := le_padded size
    simp only [Bool.false_eq_true, if_false] at hroom
    split <;> simp only [Buffer.size] at hroom ⊢ <;> omega
  refine locate_mono hreads (fun total hover => ?_) h
  obtain ⟨hpos, hlt⟩ := hover
  have hmore : mulCapped 1 bytes.length ≤ mulCapped limits.maxInflation bytes.length :=
    min_le_min_right _ (Nat.mul_le_mul_right _ hpos)
  exact ⟨Nat.one_pos, hmore.trans_lt hlt⟩

end Layout

/-- Laying a schema over a row of nodes of its types cannot fail. -/
lemma Schema.exists_index_of_types {s : Schema} {ns : List Node}
    (h : ns.map (·.type) = s.types) : ∃ i, s.index ns = .ok i := by
  have hlength : s.length = ns.length := by
    have := congrArg List.length h
    simpa [types] using this.symm
  have henter (i : Index) (place : ℕ) : ∃ j, enter i place s ns = .ok j := by
    clear hlength
    induction s generalizing ns i place with
    | nil => exact ⟨i, rfl⟩
    | cons entry s ih =>
      cases ns with
      | nil => exact ⟨i, rfl⟩
      | cons n ns =>
        obtain ⟨hn, hns⟩ := List.cons.inj h
        rw [enter, if_pos (congrArg AbiType.name hn.symm)]
        exact ih hns _ _
  obtain ⟨i, hi⟩ := henter [] 0
  exact ⟨i, by rw [index, if_neg (not_not_intro hlength), hi]⟩

/-- The types of the fields of a record. -/
abbrev TxKind.types (k : TxKind) : List AbiType := (Schema.ofKind .v1 k).types

namespace Record

variable {tx : Transaction} {receipt : Receipt} {encoded : Bytes} {settings : Settings}
  {tree : List Node} {fault : ReadFault}

/-- The bytes open as a record of the transaction. -/
def Opens (tx : Transaction) (receipt : Receipt) (encoded : Bytes) (settings : Settings) : Prop :=
  ∃ r notices, ofEncoded tx receipt encoded settings = .ok (r, notices)

/-- Whatever tree is found becomes that of the record. -/
lemma ofEncoded_of_tree (receipt : Receipt) (library : Library)
    (h : (Layout.locate { bytes := encoded, limits := settings.limits } tx.kind.types).1 =
      .ok tree) :
    ∃ r notices, ofEncoded tx receipt encoded settings library = .ok (r, notices) ∧
      r.tree = tree := by
  obtain ⟨index, hindex⟩ :=
    Schema.exists_index_of_types (Layout.locate_fst_eq_ok_iff.mp h).1.types_eq
  simp only [ofEncoded, Schema.read_ofKind, h, hindex]
  exact ⟨_, _, rfl, rfl⟩

lemma ofEncoded_of_fault {library : Library}
    (h : (Layout.locate { bytes := encoded, limits := settings.limits } tx.kind.types).1 =
      .error fault) :
    ofEncoded tx receipt encoded settings library = .error (.reading fault) := by
  simp only [ofEncoded, Schema.read_ofKind, h]

/-- **A record opens just where it is laid out.** Neither the type that the record gives for itself
nor the transaction, its kind apart, nor the receipt has a say in it. -/
theorem opens_iff : Opens tx receipt encoded settings ↔
    ∃ tree, (Layout.locate { bytes := encoded, limits := settings.limits } tx.kind.types).1 =
      .ok tree := by
  constructor
  · intro h
    obtain ⟨r, notices, h⟩ := h
    cases hl : (Layout.locate { bytes := encoded, limits := settings.limits } tx.kind.types).1 with
    | error fault =>
      rw [ofEncoded_of_fault hl] at h
      cases h
    | ok tree => exact ⟨tree, rfl⟩
  · intro h
    obtain ⟨tree, h⟩ := h
    obtain ⟨r, notices, hok, -⟩ := ofEncoded_of_tree receipt .standard h
    exact ⟨r, notices, hok⟩

/-- A pointer that leads out of the record keeps it from being opened. -/
lemma ofEncoded_of_stray {i : ℕ} {t : AbiType} {w : Bytes} (hi : tx.kind.types[i]? = some t)
    (hd : t.isDynamic = true)
    (hw : encoded.slice? (AbiType.rowSize (tx.kind.types.take i)) wordSize = some w)
    (hfar : encoded.length < w.toNat) :
    ∃ fault, ofEncoded tx receipt encoded settings = .error (.reading fault) := by
  cases hl : (Layout.locate { bytes := encoded, limits := settings.limits } tx.kind.types).1 with
  | error fault => exact ⟨fault, ofEncoded_of_fault hl⟩
  | ok tree =>
    obtain ⟨n, -, hslot⟩ := (Layout.locate_fst_eq_ok_iff.mp hl).1.slot_at hi
    obtain ⟨ahead, ⟨w', hw', rfl, -⟩, hle, -⟩ := (Layout.slot_dynamic_iff hd).mp hslot
    rw [Nat.zero_add, hw] at hw'
    cases hw'
    rw [Nat.zero_add] at hle
    exact absurd hfar (Nat.not_lt.mpr hle)

end Record

namespace Value

variable {ts : List AbiType} {vs : List Value} {t : AbiType} {v : Value} {b : Bytes} {i : ℕ}

/-- A scalar of a row stands in its slot. -/
lemma slice?_of_slots {pos ahead : ℕ} (hvs : List.Forall₂ HasType vs ts)
    (hslots : b.Holds pos (Part.slots ahead (parts ts vs))) (hi : ts[i]? = some t)
    (hs : t.isScalar = true) (hv : vs[i]? = some v) :
    b.slice? (pos + AbiType.rowSize (ts.take i)) wordSize = some v.word := by
  induction hvs generalizing pos ahead i with
  | nil => cases hi
  | @cons v' u vs ts hvu hvs ih =>
    cases i with
    | zero =>
      cases hi
      cases hv
      have hd := AbiType.isScalar_not_isDynamic hs
      simp only [parts, hd, Part.slots, encode_scalar hvu hs] at hslots
      rw [← length_word hvu hs]
      exact hslots.left
    | succ i =>
      have hrest : ∃ ahead', b.Holds (pos + u.slotSize) (Part.slots ahead' (parts ts vs)) := by
        cases hd : u.isDynamic with
        | false =>
          simp only [parts, hd, Part.slots] at hslots
          rw [← length_encode_of_static hd hvu]
          exact ⟨_, hslots.right⟩
        | true =>
          simp only [parts, hd, Part.slots] at hslots
          have hright := hslots.right
          rw [Bytes.length_ofNat, ← AbiType.slotSize_of_isDynamic hd] at hright
          exact ⟨_, hright⟩
      obtain ⟨ahead', hrest⟩ := hrest
      rw [List.take_succ_cons, AbiType.rowSize_cons, ← Nat.add_assoc]
      exact ih hrest hi hv

end Value

/-- Where all slots are words, they stand one word apart. -/
lemma AbiType.rowSize_of_words {ts : List AbiType} (h : ∀ t ∈ ts, t.slotSize = wordSize) :
    rowSize ts = ts.length * wordSize := by
  induction ts with
  | nil => rfl
  | cons t ts ih =>
    rw [rowSize_cons, h t List.mem_cons_self, ih fun u hu => h u (List.mem_cons_of_mem _ hu),
      List.length_cons, Nat.succ_mul, Nat.add_comm]

lemma TxKind.slotSize_of_mem_types {k : TxKind} : ∀ t ∈ k.types, t.slotSize = wordSize := by
  cases k <;> decide

/-- The fields of a record stand one word apart. -/
lemma TxKind.rowSize_take {k : TxKind} {i : ℕ} {t : AbiType} (hi : k.types[i]? = some t) :
    AbiType.rowSize (k.types.take i) = i * wordSize := by
  obtain ⟨hlt, -⟩ := List.getElem?_eq_some_iff.mp hi
  rw [AbiType.rowSize_of_words fun u hu => slotSize_of_mem_types u (List.mem_of_mem_take hu),
    List.length_take_of_le hlt.le]

namespace Record

/-- Somewhere the values of one kind have a number that the other kind takes for a pointer, and as
a pointer it leads out of their encoding. -/
def LeadsOut (k k' : TxKind) (vs : List Value) : Prop :=
  ∃ (i : ℕ) (t t' : AbiType) (v : Value), k.types[i]? = some t ∧ t.isScalar = true ∧
    k'.types[i]? = some t' ∧ t'.isDynamic = true ∧ vs[i]? = some v ∧
    (Value.encodeRow k.types vs).length < v.word.toNat

variable {k : TxKind} {vs : List Value} {tx : Transaction}

/-- **What keeps kinds apart.** A record of one kind is not opened as one of another, under
whatever settings, if a number of it leads out of the record where the other has a pointer. -/
theorem rejects_of_leadsOut (hvs : List.Forall₂ Value.HasType vs k.types)
    (h : LeadsOut k tx.kind vs) (receipt : Receipt) (settings : Settings) :
    ∃ fault, ofEncoded tx receipt (Value.encodeRow k.types vs) settings =
      .error (.reading fault) := by
  obtain ⟨i, t, t', v, ht, hs, ht', hd, hv, hfar⟩ := h
  have hrow := Bytes.holds_self (Value.encodeRow k.types vs)
  have hword := Value.slice?_of_slots hvs hrow.left ht hs hv
  rw [Nat.zero_add, TxKind.rowSize_take ht, ← TxKind.rowSize_take ht'] at hword
  exact ofEncoded_of_stray ht' hd hword hfar

end Record

/-! ### Records that open as what they are not -/

/-- A word is a value of its own. -/
lemma Value.hasType_word {w : Bytes} (h : w.length = 32) :
    (Value.fixedBytes 32 w).HasType (.fixedBytes 32) := by
  have hw := HasType.fixedBytes (s := w) (by rw [h]; decide)
  simpa [h, wordSize] using hw

/-- The values of a transaction that carries one authorization and no call data, and of its receipt
without logs. -/
def delegation : List Value :=
  [.uint 8 4, .uint 64 1, .uint 64 7, .uint 128 1000000000, .uint 128 30000000000, .uint 64 90000,
    .address (List.replicate 20 17), .address (List.replicate 20 34), .uint 256 0, .bytes [],
    .array [],
    .array [.tuple [.uint 256 1, .address (List.replicate 20 51), .uint 64 8, .uint 8 1,
      .uint 256 (2 ^ 255 - 19), .uint 256 (2 ^ 254 + 45)]],
    .uint 8 0, .fixedBytes 32 (List.replicate 32 68), .fixedBytes 32 (List.replicate 32 85),
    .uint 8 1, .uint 64 46000, .array [], .bytes []]

lemma delegation_hasType : List.Forall₂ Value.HasType delegation TxKind.setCode.types := by
  have hauthorization : (Value.tuple [.uint 256 1, .address (List.replicate 20 51), .uint 64 8,
      .uint 8 1, .uint 256 (2 ^ 255 - 19), .uint 256 (2 ^ 254 + 45)]).HasType
      (.tuple [.uint 256, .address, .uint 64, .uint 8, .uint 256, .uint 256]) :=
    .tuple (.cons (.uint (by decide) (by decide)) (.cons (.address rfl)
      (.cons (.uint (by decide) (by decide)) (.cons (.uint (by decide) (by decide))
        (.cons (.uint (by decide) (by decide)) (.cons (.uint (by decide) (by decide)) .nil))))))
  have htransaction : List.Forall₂ Value.HasType (delegation.take 15)
      (Schema.types (Schema.denoted (.transaction .setCode))) :=
    .cons (.uint (by decide) (by decide)) (.cons (.uint (by decide) (by decide))
      (.cons (.uint (by decide) (by decide)) (.cons (.uint (by decide) (by decide))
        (.cons (.uint (by decide) (by decide)) (.cons (.uint (by decide) (by decide))
          (.cons (.address rfl) (.cons (.address rfl) (.cons (.uint (by decide) (by decide))
            (.cons (.bytes _) (.cons (.array .nil) (.cons (.array (.cons hauthorization .nil))
              (.cons (.uint (by decide) (by decide)) (.cons (Value.hasType_word rfl)
                (.cons (Value.hasType_word rfl) .nil))))))))))))))
  have hreceipt : List.Forall₂ Value.HasType (delegation.drop 15)
      (Schema.types (Schema.denoted .receipt)) :=
    .cons (.uint (by decide) (by decide)) (.cons (.uint (by decide) (by decide))
      (.cons (.array .nil) (.cons (.bytes _) .nil)))
  exact List.rel_append htransaction hreceipt

/-- As a transaction of the first kind the record is rejected: it has the recipient where that has
the pointer to its data. -/
theorem delegation_rejected_as_legacy :
    List.Forall₂ Value.HasType delegation TxKind.setCode.types ∧
    Record.LeadsOut .setCode .legacy delegation ∧
    ∃ fault, Record.ofEncoded { kind := .legacy, destination := none, input := [] } { logs := [] }
      (Value.encodeRow TxKind.setCode.types delegation) {} = .error (.reading fault) := by
  have hout : Record.LeadsOut .setCode .legacy delegation :=
    ⟨7, .address, .bytes, .address (List.replicate 20 34), rfl, rfl, rfl, rfl, rfl, by
      decide +kernel⟩
  exact ⟨delegation_hasType, hout, Record.rejects_of_leadsOut delegation_hasType hout _ _⟩

/-- As a transaction with blobs the record is accepted, and where that has `r` it has `s`. -/
theorem delegation_opens_as_blob :
    List.Forall₂ Value.HasType delegation TxKind.setCode.types ∧
    delegation.head? = some (.uint 8 TxKind.setCode.code) ∧
    ∃ r notices, Record.ofEncoded { kind := .blob, destination := none, input := [] } { logs := [] }
        (Value.encodeRow TxKind.setCode.types delegation) {} = .ok (r, notices) ∧
      ((r.field? .r).bind fun n => n.slice? r.encoded) = some (List.replicate 32 85) := by
  refine ⟨delegation_hasType, rfl, ?_⟩
  have hopened : ((Record.ofEncoded { kind := .blob, destination := none, input := [] }
      { logs := [] } (Value.encodeRow TxKind.setCode.types delegation) {}).toOption.bind
        fun opened => (opened.1.field? .r).bind fun n => n.slice? opened.1.encoded) =
      some (List.replicate 32 85) := by decide +kernel
  obtain ⟨⟨r, notices⟩, hok, hr⟩ := Option.bind_eq_some_iff.mp hopened
  exact ⟨r, notices, eq_ok_of_toOption hok, hr⟩

/-- One log without topics and data, and no elements of other types. -/
def misleadingElements : AbiType → List Value
  | .tuple [.address, .array _, .bytes] =>
    [.tuple [.address (Bytes.ofNat 20 32), .array [], .bytes []]]
  | _ => []

/-- A value for a field of a kind that is to pass for another: small numbers, which lead as pointers
to the field behind the type, where a zero stands. -/
def misleading (k k' : TxKind) (f : Field) : AbiType → Value
  | .uint bits =>
    .uint bits (if f = .type then k.code else if f = .chainId ∨ f = .nonce then 0 else 32)
  | .address => .address (Bytes.ofNat 20 32)
  | .fixedBytes size => .fixedBytes size (Bytes.ofNat 32 32)
  | .bytes =>
    -- where the other kind has more slots, the call data stands in for them
    .bytes (if f = .data ∧ (k = .legacy ∨ k' ≠ .accessList) then
      (List.replicate 4 (Bytes.ofNat 32 32)).flatten ++ List.replicate 640 0 else [])
  | .array t => .array (misleadingElements t)
  | _ => .bool false

/-- The values of a record of one kind that is to pass for one of another. -/
def misleadingRow (k k' : TxKind) : List Value :=
  (Schema.ofKind .v1 k).map fun entry => misleading k k' entry.1 entry.2

/-- Fields have types of these sorts. -/
def AbiType.isField : AbiType → Bool
  | .uint bits => 8 ≤ bits && bits ≤ 256
  | .fixedBytes size => size == 32
  | .address | .bytes | .array _ => true
  | _ => false

lemma Schema.isField_of_mem {k : TxKind} : ∀ entry ∈ ofKind .v1 k, entry.2.isField = true := by
  cases k <;> decide

lemma hasType_misleadingElements (t : AbiType) : List.Forall₂ Value.HasType (misleadingElements t)
    (List.replicate (misleadingElements t).length t) := by
  unfold misleadingElements
  split
  · exact .cons (.tuple (.cons (.address rfl) (.cons (.array .nil) (.cons (.bytes _) .nil)))) .nil
  · exact .nil

lemma hasType_misleading {k k' : TxKind} {f : Field} {t : AbiType} (ht : t.isField = true) :
    (misleading k k' f t).HasType t := by
  cases t with
  | uint bits =>
    simp only [AbiType.isField, Bool.and_eq_true, decide_eq_true_eq] at ht
    have hsmall : (if f = .type then k.code else if f = .chainId ∨ f = .nonce then 0 else 32) <
        2 ^ 8 := by
      split
      · cases k <;> decide
      · split <;> decide
    exact .uint ht.2 (lt_of_lt_of_le hsmall (Nat.pow_le_pow_right (by decide) ht.1))
  | address => exact .address rfl
  | fixedBytes size =>
    obtain rfl : size = 32 := by simpa [AbiType.isField] using ht
    exact Value.hasType_word rfl
  | bytes => exact .bytes _
  | array t => exact .array (hasType_misleadingElements t)
  | _ => cases ht

lemma hasType_misleadingRow (k k' : TxKind) :
    List.Forall₂ Value.HasType (misleadingRow k k') k.types := by
  refine List.forall₂_map_left_iff.mpr (List.forall₂_map_right_iff.mpr ?_)
  exact List.forall₂_same.mpr fun entry h => hasType_misleading (Schema.isField_of_mem entry h)

lemma locate_misleadingRow (k k' : TxKind) :
    (Layout.locate ⟨Value.encodeRow k.types (misleadingRow k k'), { maxInflation := 1 }⟩
      k'.types).1.toOption.isSome = true := by
  cases k <;> cases k' <;> decide +kernel

/-- **Every kind can pass for every other.** There are values for the fields of a record of one
kind, its type among them, of which the encoding opens as a record of the other, under whatever
settings. -/
theorem exists_opens (k k' : TxKind) : ∃ vs, List.Forall₂ Value.HasType vs k.types ∧
    vs.head? = some (.uint 8 k.code) ∧ ∀ tx receipt settings, tx.kind = k' →
      Record.Opens tx receipt (Value.encodeRow k.types vs) settings := by
  refine ⟨misleadingRow k k', hasType_misleadingRow k k', by cases k <;> rfl, ?_⟩
  rintro tx receipt settings rfl
  obtain ⟨tree, htree⟩ := Option.isSome_iff_exists.mp (locate_misleadingRow k tx.kind)
  exact Record.opens_iff.mpr ⟨tree, Layout.locate_of_strict (eq_ok_of_toOption htree)⟩

end AbiSpan
