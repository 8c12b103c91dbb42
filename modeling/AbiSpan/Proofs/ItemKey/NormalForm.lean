import AbiSpan.Proofs.ItemKey
import Mathlib.Data.List.DropRight

/-!
Keys as normal forms of queries.

Three tests decide what a query is: the mark of a hash after the blanks at its ends are gone, then
an opening bracket, and only then are the blanks inside a signature dropped. So marked text is a
hash or a fault and nothing else, and all other text is some key. Queries that differ in blanks
alone have one key between them, with a single exception: a blank can stand in a mark, and then
the query is a signature that its own text does not name.
-/

namespace AbiSpan

/-! ### Blanks at the ends -/

namespace Text

variable {cs ds : List Char}

/-- The text has no blank at either end. -/
def Trimmed (cs : List Char) : Prop := cs.dropWhile isBlank = cs ∧ cs.rdropWhile isBlank = cs

lemma trim_eq_rdropWhile (cs : List Char) :
    trim cs = (cs.dropWhile isBlank).rdropWhile isBlank := rfl

lemma Trimmed.trim_eq (h : Trimmed cs) : trim cs = cs := by
  rw [trim_eq_rdropWhile, h.1, h.2]

/-- What begins a text that begins with no blank begins with none itself. -/
lemma prefix_dropWhile (hfront : ds <+: cs) (h : cs.dropWhile isBlank = cs) :
    ds.dropWhile isBlank = ds := by
  rw [List.dropWhile_eq_self_iff] at h ⊢
  intro hpos
  have hpos' : 0 < cs.length := hpos.trans_le hfront.length_le
  rw [hfront.getElem hpos]
  exact h hpos'

lemma trimmed_trim (cs : List Char) : Trimmed (trim cs) := by
  rw [trim_eq_rdropWhile]
  refine ⟨?_, List.rdropWhile_idempotent _ _⟩
  exact prefix_dropWhile (List.rdropWhile_prefix _ _) (List.dropWhile_idempotent _ _)

end Text

/-! ### Digits -/

namespace Hex

lemma toNat_digit {n : ℕ} (h : n < 16) : (digit n).toNat = if n < 10 then 48 + n else 87 + n := by
  have h' : ∀ m : Fin 16, (digit m.val).toNat = if m.val < 10 then 48 + m.val else 87 + m.val := by
    decide
  exact h' ⟨n, h⟩

lemma toLower_of_digitValue? {c : Char} {n : ℕ} (h : digitValue? c = some n) :
    n < 16 ∧ c.toLower = digit n := by
  rw [digitValue?_eq] at h
  have hn : n < 16 := by split_ifs at h <;> simp only [Option.some.injEq] at h <;> omega
  refine ⟨hn, Char.toNat_inj.mp ?_⟩
  rw [toNat_toLower, toNat_digit hn]
  split_ifs at h ⊢ <;> simp only [Option.some.injEq] at h <;> omega

/-- Digits read as the bytes that they spell, and as no others. -/
lemma decode?_eq_some_iff {digits : List Char} {b : Bytes} :
    decode? digits = some b ↔ Spells digits b := by
  refine ⟨fun h => ?_, Spells.decode?_eq⟩
  fun_induction decode? digits generalizing b with
  | case1 =>
    cases h
    rfl
  | case2 => cases h
  | case3 high low cs ih =>
    simp only [Option.bind_eq_bind, Option.bind_eq_some_iff, Option.pure_def,
      Option.some.injEq] at h
    obtain ⟨n, hn, m, hm, bs, hbs, rfl⟩ := h
    obtain ⟨hn, hhigh⟩ := toLower_of_digitValue? hn
    obtain ⟨hm, hlow⟩ := toLower_of_digitValue? hm
    have hbyte : (UInt8.ofNat (n * 16 + m)).toNat = n * 16 + m := by
      rw [UInt8.toNat_ofNat']
      omega
    have hhigh' : (n * 16 + m) / 16 = n := by omega
    have hlow' : (n * 16 + m) % 16 = m := by omega
    show _ :: _ :: _ = _
    rw [encode, hbyte, hhigh', hlow', hhigh, hlow, ih hbs]

lemma Spells.unique {digits : List Char} {b b' : Bytes} (h : Spells digits b)
    (h' : Spells digits b') : b = b' :=
  Option.some_injective _ (h.decode?_eq.symm.trans h'.decode?_eq)

lemma spells_encode (b : Bytes) : Spells (encode b) b := decode?_eq_some_iff.mp (decode?_encode b)

end Hex

/-! ### Keys -/

namespace ItemKey

variable {width : ℕ} {query : String} {cs digits : List Char} {k : ItemKey}

/-- The text begins with the mark of a hash. -/
def Marked (cs : List Char) : Prop := ['0', 'x'] <+: cs

instance (cs : List Char) : Decidable (Marked cs) := inferInstanceAs (Decidable (_ <+: _))

lemma marked_iff : Marked cs ↔ ∃ digits, cs = '0' :: 'x' :: digits :=
  exists_congr fun _ => eq_comm

/-- Marked text is the hash that its digits spell, or nothing. -/
lemma ofTrimmed_marked (width : ℕ) (digits : List Char) :
    (∃ b, Hex.Spells digits b ∧ b.length = width ∧
      ofTrimmed width ('0' :: 'x' :: digits) = .ok (.hash b)) ∨
    (¬ ∃ b, Hex.Spells digits b ∧ b.length = width) ∧
      ofTrimmed width ('0' :: 'x' :: digits) =
        .error (.badSignatureHex (.ofList ('0' :: 'x' :: digits))) := by
  simp only [← Hex.decode?_eq_some_iff, ofTrimmed]
  cases h : Hex.decode? digits with
  | none => exact .inr ⟨by simp, rfl⟩
  | some b =>
    by_cases hb : b.length = width
    · exact .inl ⟨b, rfl, hb, if_pos hb⟩
    · exact .inr ⟨by simpa using hb, if_neg hb⟩

lemma ofTrimmed_of_not_marked (h : ¬ Marked cs) : ofTrimmed width cs =
    .ok (if '(' ∈ cs then .signature (.ofList (Text.squeeze cs)) else .name (.ofList cs)) := by
  unfold ofTrimmed
  split
  · exact absurd (marked_iff.mpr ⟨_, rfl⟩) h
  · exact (apply_ite Except.ok _ _ _).symm

lemma ofString_eq_hash_iff (hmark : Text.trim query.toList = '0' :: 'x' :: digits) :
    ofString width query = .ok k ↔ ∃ b, k = .hash b ∧ Hex.Spells digits b ∧ b.length = width := by
  rw [ofString, hmark]
  rcases ofTrimmed_marked width digits with ⟨b, hspells, hb, hread⟩ | ⟨hnone, hread⟩
  · rw [hread, Except.ok.injEq]
    constructor
    · rintro rfl
      exact ⟨b, rfl, hspells, hb⟩
    · rintro ⟨b', rfl, hspells', -⟩
      rw [hspells.unique hspells']
  · rw [hread]
    constructor
    · intro h
      cases h
    · rintro ⟨b, -, hspells, hb⟩
      exact absurd ⟨b, hspells, hb⟩ hnone

lemma ofString_eq_error_iff (hmark : Text.trim query.toList = '0' :: 'x' :: digits) :
    ofString width query = .error (.badSignatureHex (.ofList (Text.trim query.toList))) ↔
      ¬ ∃ b, Hex.Spells digits b ∧ b.length = width := by
  rw [ofString, hmark]
  rcases ofTrimmed_marked width digits with ⟨b, hspells, hb, hread⟩ | ⟨hnone, hread⟩
  · rw [hread]
    constructor
    · intro h
      cases h
    · exact fun h => absurd ⟨b, hspells, hb⟩ h
  · exact ⟨fun _ => hnone, fun _ => hread⟩

/-- A bracket is no blank, so trimming and squeezing keep it. -/
lemma bracket_mem_squeeze : '(' ∈ Text.squeeze cs ↔ '(' ∈ cs :=
  Text.mem_squeeze.trans (and_iff_left (by decide))

lemma bracket_mem_trim : '(' ∈ Text.trim cs ↔ '(' ∈ cs := by
  rw [← bracket_mem_squeeze, Text.squeeze_trim, bracket_mem_squeeze]

lemma ofString_of_not_marked (h : ¬ Marked (Text.trim query.toList)) : ofString width query =
    .ok (if '(' ∈ query.toList then .signature (.ofList (Text.squeeze query.toList))
      else .name (.ofList (Text.trim query.toList))) := by
  rw [ofString, ofTrimmed_of_not_marked h, Text.squeeze_trim]
  simp only [bracket_mem_trim]

/-- Marked text is never a signature. -/
lemma signature_inv {s : String} (h : ofString width query = .ok (.signature s)) :
    ¬ Marked (Text.trim query.toList) ∧ '(' ∈ query.toList ∧
      s = .ofList (Text.squeeze query.toList) := by
  have hmark : ¬ Marked (Text.trim query.toList) := fun hmark => by
    obtain ⟨digits, hmark⟩ := marked_iff.mp hmark
    obtain ⟨b, hb, -⟩ := (ofString_eq_hash_iff hmark).mp h
    cases hb
  rw [ofString_of_not_marked hmark] at h
  split at h
  · cases h
    exact ⟨hmark, ‹_›, rfl⟩
  · cases h

/-- A signature does not depend on the blanks of its query, if these hide no mark. -/
lemma ofString_of_squeeze_eq {s query' : String} (h : ofString width query = .ok (.signature s))
    (hsqueeze : Text.squeeze query'.toList = Text.squeeze query.toList)
    (hmark : ¬ Marked (Text.trim query'.toList)) : ofString width query' = .ok (.signature s) := by
  obtain ⟨-, hbracket, rfl⟩ := signature_inv h
  have hbracket' : '(' ∈ query'.toList := by
    rwa [← bracket_mem_squeeze, hsqueeze, bracket_mem_squeeze]
  rw [ofString_of_not_marked hmark, if_pos hbracket', hsqueeze]

/-- The text of a key reads back as the key, unless it is that of a signature and has the mark. -/
lemma ofString_text (h : ofString width query = .ok k) :
    ofString width k.text = .ok k ↔ ¬ ∃ s, k = .signature s ∧ Marked s.toList := by
  by_cases hmark : Marked (Text.trim query.toList)
  · obtain ⟨digits, hmark⟩ := marked_iff.mp hmark
    obtain ⟨b, rfl, -, hb⟩ := (ofString_eq_hash_iff hmark).mp h
    have hread : ofString width (Hex.marked b) = .ok (.hash b) :=
      ofString_of_isHashText ⟨Hex.encode b, by simp [Hex.marked, Hex.text], Hex.spells_encode b⟩ hb
    exact iff_of_true hread (by simp)
  · cases k with
    | hash b =>
      rw [ofString_of_not_marked hmark] at h
      split at h <;> cases h
    | signature s =>
      obtain ⟨-, -, hs⟩ := signature_inv h
      have hlist : s.toList = Text.squeeze query.toList := by rw [hs, String.toList_ofList]
      have hdense : Text.Dense s.toList := fun c hc => (Text.mem_squeeze.mp (hlist ▸ hc)).2
      constructor
      · rintro hread ⟨_, ⟨⟩, hmark'⟩
        have hnot := (signature_inv hread).1
        rw [text, hdense.trim_eq] at hnot
        exact hnot hmark'
      · intro hno
        refine ofString_of_squeeze_eq h ?_ ?_
        · rw [text, hlist, Text.squeeze_squeeze]
        · rw [text, hdense.trim_eq]
          exact fun hmark' => hno ⟨s, rfl, hmark'⟩
    | name s =>
      have hs : Text.Trimmed s.toList ∧ ¬ Marked s.toList ∧ '(' ∉ s.toList := by
        rw [ofString_of_not_marked hmark] at h
        split at h
        · cases h
        · cases h
          rw [String.toList_ofList]
          exact ⟨Text.trimmed_trim _, hmark, by rwa [bracket_mem_trim]⟩
      obtain ⟨htrimmed, hmark', hbracket⟩ := hs
      have hread : ofString width s = .ok (.name s) := by
        rw [ofString_of_not_marked (by rwa [htrimmed.trim_eq]), if_neg hbracket, htrimmed.trim_eq,
          String.ofList_toList]
      exact iff_of_true hread (by simp)

/-- **Keys are normal forms.** A query with the mark of a hash, blanks at its ends aside, is the
hash that its digits spell in whatever letter case, if they spell one of the right length, and else
no key at all. Any other query is a signature if it holds a bracket and a name if not. Queries that
differ in blanks alone have the same signature, if they have not the mark. And the text of a key is
a query for that key, but for a signature that begins with the mark: only a blank in the mark kept
its query from being taken for a hash. -/
theorem ofString_normal (width : ℕ) (query : String) :
    (∀ digits, Text.trim query.toList = '0' :: 'x' :: digits →
      (∀ k, ofString width query = .ok k ↔
        ∃ b, k = .hash b ∧ Hex.Spells digits b ∧ b.length = width) ∧
      (ofString width query = .error (.badSignatureHex (.ofList (Text.trim query.toList))) ↔
        ¬ ∃ b, Hex.Spells digits b ∧ b.length = width)) ∧
    (¬ Marked (Text.trim query.toList) → ofString width query =
      .ok (if '(' ∈ query.toList then .signature (.ofList (Text.squeeze query.toList))
        else .name (.ofList (Text.trim query.toList)))) ∧
    (∀ s, ofString width query = .ok (.signature s) → ∀ query' : String,
      Text.squeeze query'.toList = Text.squeeze query.toList →
      ¬ Marked (Text.trim query'.toList) → ofString width query' = .ok (.signature s)) ∧
    (∀ k, ofString width query = .ok k →
      (ofString width k.text = .ok k ↔ ¬ ∃ s, k = .signature s ∧ Marked s.toList)) := by
  refine ⟨fun digits hmark => ⟨fun k => ?_, ?_⟩, fun hmark => ?_,
    fun s h query' hsqueeze hmark => ?_, fun k h => ?_⟩
  · exact ofString_eq_hash_iff hmark
  · exact ofString_eq_error_iff hmark
  · exact ofString_of_not_marked hmark
  · exact ofString_of_squeeze_eq h hsqueeze hmark
  · exact ofString_text h

/-- A blank within the mark makes a signature of what is no key without it; with a blank in another
place it is the same signature. -/
theorem splitMark_normal :
    ofString 4 " 0 x2A(uint8)" = .ok (.signature "0x2A(uint8)") ∧
    ofString 4 "0 x2A( uint8 )" = .ok (.signature "0x2A(uint8)") ∧
    ofString 4 "0x2A(uint8)" ≠ .ok (.signature "0x2A(uint8)") ∧
    ofString 4 " 0xA9059CbB " = .ok (.hash [0xa9, 0x05, 0x9c, 0xbb]) := by
  obtain ⟨-, hother, hblanks, htext⟩ := ofString_normal 4 " 0 x2A(uint8)"
  have hread := hother (by decide +kernel)
  rw [if_pos (by decide +kernel)] at hread
  refine ⟨hread, hblanks _ hread "0 x2A( uint8 )" (by decide +kernel) (by decide +kernel), ?_, ?_⟩
  · exact fun h => (htext _ hread).mp h ⟨_, rfl, by decide +kernel⟩
  · obtain ⟨hhash, -⟩ := ofString_normal 4 " 0xA9059CbB "
    exact ((hhash "A9059CbB".toList (by decide +kernel)).1 _).mpr
      ⟨_, rfl, by unfold Hex.Spells; decide +kernel, by decide +kernel⟩

end ItemKey

end AbiSpan
