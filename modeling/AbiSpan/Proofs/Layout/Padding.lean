import AbiSpan.Proofs.Bytes
import AbiSpan.Proofs.Layout.Exact
import AbiSpan.Proofs.Layout.Parallel

/-!
What a missing padding changes.

A loose walk lets the last padding of a payload be missing, and differs from the strict one in
nothing else: a strict read does what the loose one does, unless it stops because padding would lie
past the end. So a tree that is found strictly is found loosely, what is found loosely is found
strictly once the buffer goes on for long enough, and where only the loose walk finds a tree, one of
its payloads ends so near to the end of the buffer that its padding would not fit.
-/

namespace AbiSpan

namespace Buffer

/-- The same bytes, where every payload must be padded. -/
def strict (b : Buffer) : Buffer := { b with limits := { b.limits with allowLoose := false } }

/-- The same bytes, where the padding of a last payload may be missing. -/
def loose (b : Buffer) : Buffer := { b with limits := b.limits.loose }

/-- The buffer with more bytes behind it. -/
def extended (b : Buffer) (suffix : Bytes) : Buffer := { b with bytes := b.bytes ++ suffix }

variable {b : Buffer} {pos size : ℕ}

@[simp] lemma size_strict : b.strict.size = b.size := rfl

@[simp] lemma size_loose : b.loose.size = b.size := rfl

@[simp] lemma size_extended (suffix : Bytes) :
    (b.extended suffix).size = b.size + suffix.length := List.length_append

@[simp] lemma allowLoose_strict : b.strict.limits.allowLoose = false := rfl

@[simp] lemma allowLoose_loose : b.loose.limits.allowLoose = true := rfl

lemma hasRoom_strict : b.strict.HasRoom pos size ↔ pos + padded size ≤ b.size := Iff.rfl

lemma hasRoom_loose : b.loose.HasRoom pos size ↔ pos + size ≤ b.size := Iff.rfl

/-- What can be read loosely, can be read strictly once a word's padding is sure to be there. -/
lemma loose_readsIn_extended {suffix : Bytes} (h : wordSize - 1 ≤ suffix.length) :
    b.loose.ReadsIn (b.extended suffix).strict where
  slice hs := Bytes.slice?_append hs suffix
  room {pos size} hroom := by
    rw [hasRoom_loose] at hroom
    rw [hasRoom_strict, size_extended]
    have hpad := padded_lt size
    omega

end Buffer

namespace Reading

variable {b : Buffer}

/-- A read has been refused for the padding alone. -/
def PaddingLacks (b : Buffer) (fault : ReadFault) : Prop :=
  ∃ offset size, fault = .pastEnd offset (padded size) b.size ∧
    offset + size ≤ b.size ∧ b.size < offset + padded size

/-- A strict read does what the loose one does, unless it is refused for the padding alone. -/
lemma strict_bytes (size : ℕ) (unpadded : Bool) : Unless (PaddingLacks b) Eq
    (bytes b.strict size unpadded) (bytes b.loose size unpadded) := by
  refine (unless_refl _).bind fun v _ hv => ?_
  subst hv
  have hend : v.readEnd b.strict size unpadded = v.readEnd b.loose size unpadded ∨
      ∃ fault, PaddingLacks b fault ∧ v.readEnd b.strict size unpadded = .error fault := by
    unfold View.readEnd
    rw [Buffer.size_strict, Buffer.size_loose, Buffer.allowLoose_strict, Buffer.allowLoose_loose]
    by_cases hbig : offsetBound ≤ padded size
    · exact .inl (by rw [if_pos hbig, if_pos hbig])
    by_cases hfull : v.position + padded size ≤ b.size
    · exact .inl (by rw [if_neg hbig, if_neg hbig, if_pos hfull, if_pos hfull])
    rw [if_neg hbig, if_neg hbig, if_neg hfull, if_neg hfull]
    by_cases hbare : unpadded = true ∧ v.position + size ≤ b.size
    · exact .inr ⟨_, ⟨_, _, rfl, hbare.2, Nat.lt_of_not_le hfull⟩, rfl⟩
    · exact .inl (by simpa using hbare)
  rcases hend with heq | ⟨fault, hlacks, hstrict⟩
  · rw [heq]
    exact unless_refl _
  · rw [hstrict]
    exact fun p => .inr ⟨fault, p, rfl, .inl hlacks⟩

end Reading

/-- A payload that ends inside a buffer of this size, while its padding would not. -/
def Node.Unpadded (bufferSize : Nat) (n : Node) : Prop :=
  n.type.isPayload = true ∧
    ∃ size, n.size = some size ∧ n.offset + size ≤ bufferSize ∧ bufferSize < n.offset + padded size

namespace Layout

open Node Reading

variable {b : Buffer} {ts : List AbiType} {ns : List Node}

/-- A strict walk does what the loose one does, unless it is refused for padding alone. -/
lemma locate_strict_eq_or (b : Buffer) (ts : List AbiType) :
    locate b.strict ts = locate b.loose ts ∨
      ∃ fault, PaddingLacks b fault ∧ (locate b.strict ts).1 = .error fault := by
  have hsize : b.strict.size = b.loose.size := rfl
  exact locate_eq_or hsize strict_bytes ts

/-! ### Payloads without their padding -/

lemma children_padded {size : ℕ} {n : Node} (h : ∀ m ∈ n.preorder, ¬ m.Unpadded size) :
    ∀ m ∈ preorderOf n.children, ¬ m.Unpadded size := fun m hm =>
  h m (by rw [preorder_eq]; exact List.mem_cons_of_mem _ hm)

lemma hasRoom_of_padded {t : AbiType} {pos : ℕ} {s : Bytes} (ht : t.isPayload = true)
    (hroom : b.loose.HasRoom pos s.length) (h : ∀ m ∈ (ofPayload t pos s).preorder,
      ¬ m.Unpadded b.size) : b.strict.HasRoom pos s.length := by
  have hself : ¬ (ofPayload t pos s).Unpadded b.size := h _ (by rw [preorder_eq]; simp)
  rw [Buffer.hasRoom_loose] at hroom
  rw [Buffer.hasRoom_strict]
  by_contra hlacks
  exact hself ⟨ht, s.length, rfl, hroom, Nat.lt_of_not_le hlacks⟩

mutual

/-- What is laid out loosely is laid out strictly, if no payload lacks its padding. -/
theorem Row.strict : ∀ {base : ℕ} {ts : List AbiType} {pos : ℕ} {ns : List Node},
    Row b.loose base ts pos ns → (∀ m ∈ preorderOf ns, ¬ m.Unpadded b.size) →
      Row b.strict base ts pos ns
  | _, _, _, _, .nil, _ => .nil
  | _, _, _, _, .cons hn hns, h => .cons (hn.strict fun m hm => h m (List.mem_append_left _ hm))
    (hns.strict fun m hm => h m (List.mem_append_right _ hm))

theorem Slot.strict : ∀ {base : ℕ} {t : AbiType} {pos : ℕ} {n : Node},
    Slot b.loose base t pos n → (∀ m ∈ n.preorder, ¬ m.Unpadded b.size) →
      Slot b.strict base t pos n
  | _, _, _, _, .word ht hw, _ => .word ht hw
  | _, _, _, _, .row hd hm hr, h => .row hd hm (hr.strict (children_padded h))
  | _, _, _, _, .pointer hd hi hle ht, h => .pointer hd hi hle (ht.strict h)

theorem Tail.strict : ∀ {t : AbiType} {start : ℕ} {n : Node},
    Tail b.loose t start n → (∀ m ∈ n.preorder, ¬ m.Unpadded b.size) → Tail b.strict t start n
  | _, _, _, .payload ht hi hroom hs, h => .payload ht hi (hasRoom_of_padded ht hroom h) hs
  | _, _, _, .array hi hr, h => .array hi (hr.strict (children_padded h))
  | _, _, _, .row hm hr, h => .row hm (hr.strict (children_padded h))

end

/-- What the loose walk alone finds has a payload without its padding. -/
lemma exists_unpadded (hloose : (locate b.loose ts).1 = .ok ns)
    (hstrict : (locate b.strict ts).1 ≠ .ok ns) : ∃ m ∈ preorderOf ns, m.Unpadded b.size := by
  by_contra hnone
  obtain ⟨hr, hfit, hafford⟩ := locate_fst_eq_ok_iff.mp hloose
  have hpadded : ∀ m ∈ preorderOf ns, ¬ m.Unpadded b.size := fun m hm hm' => hnone ⟨m, hm, hm'⟩
  exact hstrict (locate_fst_eq_ok_iff.mpr ⟨hr.strict hpadded, hfit, hafford⟩)

/-! ### Longer buffers -/

/-- A guard is no stricter on a longer buffer. -/
lemma exceeded_of_extended (suffix : Bytes) {total : ℕ}
    (h : (b.extended suffix).limits.Exceeded (b.extended suffix).size total) :
    b.limits.Exceeded b.size total := by
  obtain ⟨hpos, hlt⟩ := h
  rw [Buffer.size_extended] at hlt
  have hcap : mulCapped b.limits.maxInflation b.size ≤
      mulCapped b.limits.maxInflation (b.size + suffix.length) :=
    min_le_min_right _ (Nat.mul_le_mul_left _ (Nat.le_add_right _ _))
  exact ⟨hpos, hcap.trans_lt hlt⟩

lemma locate_extended (h : (locate b.loose ts).1 = .ok ns) {suffix : Bytes}
    (hlong : wordSize - 1 ≤ suffix.length) : (locate (b.extended suffix).strict ts).1 = .ok ns :=
  locate_mono (Buffer.loose_readsIn_extended hlong) (fun _ => exceeded_of_extended suffix) h

/-- **To walk loosely changes nothing but that a last padding may be missing.** What the strict
walk finds, the loose one finds, counting and reporting the same. What the loose walk finds, the
strict one finds in the buffer with so much behind it that no padding can be missing. And where the
loose walk finds a tree and the strict one is at fault, the fault is that padding would lie past the
end, and the tree has a payload that ends inside the buffer while its padding would not. -/
theorem locate_loose (b : Buffer) (ts : List AbiType) :
    (∀ ns, (locate b.strict ts).1 = .ok ns → locate b.loose ts = locate b.strict ts) ∧
    (∀ ns suffix, (locate b.loose ts).1 = .ok ns → wordSize - 1 ≤ suffix.length →
      (locate (b.extended suffix).strict ts).1 = .ok ns) ∧
    (∀ ns fault, (locate b.loose ts).1 = .ok ns → (locate b.strict ts).1 = .error fault →
      (∃ offset size, fault = .pastEnd offset size b.size) ∧
        ∃ m ∈ preorderOf ns, m.Unpadded b.size) := by
  refine ⟨fun ns h => ?_, fun ns suffix h hlong => locate_extended h hlong,
    fun ns fault hloose hstrict => ⟨?_, exists_unpadded hloose (by rw [hstrict]; simp)⟩⟩
  · rcases locate_strict_eq_or b ts with heq | ⟨fault, -, hstrict⟩
    · exact heq.symm
    · cases h.symm.trans hstrict
  · rcases locate_strict_eq_or b ts with heq | ⟨_, ⟨offset, size, rfl, -⟩, hstrict'⟩
    · rw [heq, hloose] at hstrict
      cases hstrict
    · cases hstrict.symm.trans hstrict'
      exact ⟨offset, padded size, rfl⟩

/-- A buffer that ends with its payload. -/
def unpadded : Buffer where
  bytes := (List.replicate 31 0 ++ [32]) ++ (List.replicate 31 0 ++ [3]) ++ [97, 98, 99]

/-- The strict walk misses the padding of `unpadded`; the loose one finds its payload, and so does
the strict one with a word behind it. -/
theorem unpadded_loose :
    (locate unpadded.strict [.bytes]).1 = .error (.pastEnd 64 32 67) ∧
    (locate unpadded.loose [.bytes]).1 = .ok [.ofPayload .bytes 64 [97, 98, 99]] ∧
    (locate (unpadded.extended (List.replicate 32 0)).strict [.bytes]).1 =
      .ok [.ofPayload .bytes 64 [97, 98, 99]] ∧
    ∃ m ∈ preorderOf [Node.ofPayload .bytes 64 [97, 98, 99]], m.Unpadded unpadded.size := by
  have hstrict : (locate unpadded.strict [.bytes]).1 = .error (.pastEnd 64 32 67) := rfl
  have hloose : (locate unpadded.loose [.bytes]).1 = .ok [.ofPayload .bytes 64 [97, 98, 99]] := rfl
  obtain ⟨-, hextended, hlacks⟩ := locate_loose unpadded [.bytes]
  exact ⟨hstrict, hloose, hextended _ _ hloose (by decide), (hlacks _ _ hloose hstrict).2⟩

end Layout

end AbiSpan
