import AbiSpan.ItemKey
import AbiSpan.AbiType.Text
import Mathlib.Data.List.TakeWhile
import Mathlib.Tactic

/-!
How the three ways to name an item read back.

A query is trimmed before it is read, and the blanks inside a signature do not count. So a text that
begins neither with a blank nor with the mark of a hash keeps its meaning however many blanks are
put into it, and digits in any letter case spell the same bytes. Identifiers have neither blanks nor
brackets and begin with no digit, which is why none of them is taken for a hash or for a signature.
-/

namespace AbiSpan

namespace Text

/-- No character of the text is a blank. -/
def Dense (cs : List Char) : Prop := ∀ c ∈ cs, isBlank c = false

instance (cs : List Char) : Decidable (Dense cs) :=
  decidable_of_iff (cs.all fun c => !isBlank c) (by simp [Dense])

/-- The second text is the first with blanks put in anywhere. -/
inductive Spaced : List Char → List Char → Prop
  | nil : Spaced [] []
  | keep (c : Char) {cs ds : List Char} : Spaced cs ds → Spaced (c :: cs) (c :: ds)
  | blank {c : Char} {cs ds : List Char} : isBlank c = true → Spaced cs ds → Spaced cs (c :: ds)

variable {cs ds : List Char}

lemma Dense.append (h : Dense cs) (h' : Dense ds) : Dense (cs ++ ds) :=
  List.forall_mem_append.mpr ⟨h, h'⟩

lemma Dense.squeeze_eq (h : Dense cs) : squeeze cs = cs :=
  List.filter_eq_self.mpr fun c hc => by rw [h c hc, Bool.not_false]

lemma squeeze_cons (c : Char) (cs : List Char) :
    squeeze (c :: cs) = if isBlank c = true then squeeze cs else c :: squeeze cs := by
  cases h : isBlank c <;> simp [squeeze, h]

lemma Spaced.squeeze_eq (h : Spaced cs ds) : squeeze ds = squeeze cs := by
  induction h with
  | nil => rfl
  | keep c _ ih => rw [squeeze_cons, squeeze_cons, ih]
  | blank hc _ ih => rw [squeeze_cons, if_pos hc, ih]

/-- Every text is what is left of it without its blanks, with these put in again. -/
lemma spaced_squeeze (cs : List Char) : Spaced (squeeze cs) cs := by
  induction cs with
  | nil => exact .nil
  | cons c cs ih =>
    rw [squeeze_cons]
    split
    · rename_i hc
      exact ih.blank hc
    · exact ih.keep c

lemma squeeze_dropWhile (cs : List Char) : squeeze (cs.dropWhile isBlank) = squeeze cs := by
  induction cs with
  | nil => rfl
  | cons c cs ih =>
    by_cases hc : isBlank c = true
    · rw [List.dropWhile_cons_of_pos hc, ih, squeeze_cons, if_pos hc]
    · rw [List.dropWhile_cons_of_neg hc]

/-- Trimming takes nothing but blanks away. -/
lemma squeeze_trim (cs : List Char) : squeeze (trim cs) = squeeze cs := by
  have hreverse (cs : List Char) : squeeze cs.reverse = (squeeze cs).reverse := List.filter_reverse
  rw [trim, hreverse, squeeze_dropWhile, hreverse, List.reverse_reverse, squeeze_dropWhile]

lemma Dense.trim_eq (h : Dense cs) : trim cs = cs := by
  have hkeep {ds : List Char} (hds : Dense ds) : ds.dropWhile isBlank = ds := by
    cases ds with
    | nil => rfl
    | cons d ds => exact List.dropWhile_cons_of_neg (by simp [hds d (by simp)])
  rw [trim, hkeep h, hkeep fun c hc => h c (List.mem_reverse.mp hc), List.reverse_reverse]

/-- No character that digits or names are written with is a blank. -/
lemma isBlank_eq_false {c : Char} (h : 33 ≤ c.toNat) (h' : c.toNat ≤ 122) : isBlank c = false := by
  simp only [isBlank, Bool.or_eq_false_iff, Bool.and_eq_false_iff, decide_eq_false_iff_not,
    beq_eq_false_iff_ne]
  omega

end Text

/-! ### Digits -/

namespace Hex

/-- The digits are those of the bytes, each letter in either case. -/
def Spells (digits : List Char) (b : Bytes) : Prop := digits.map Char.toLower = encode b

lemma toNat_toLower (c : Char) :
    c.toLower.toNat = if 65 ≤ c.toNat ∧ c.toNat ≤ 90 then c.toNat + 32 else c.toNat := by
  unfold Char.toLower
  split
  · rename_i h
    have h' : 65 ≤ c.toNat ∧ c.toNat ≤ 90 := h
    rw [if_pos h']
    show (c.val.toNat + 32) % 2 ^ 32 = c.val.toNat + 32
    rw [Char.toNat_val]
    omega
  · rename_i h
    exact (if_neg h).symm

lemma digitValue?_eq (c : Char) : digitValue? c =
    if 48 ≤ c.toNat ∧ c.toNat ≤ 57 then some (c.toNat - 48)
    else if 97 ≤ c.toNat ∧ c.toNat ≤ 102 then some (c.toNat - 87)
    else if 65 ≤ c.toNat ∧ c.toNat ≤ 70 then some (c.toNat - 55)
    else none := by
  have hle (a b : Char) : a ≤ b ↔ a.toNat ≤ b.toNat := UInt32.le_iff_toNat_le
  simp only [digitValue?, hle]
  rfl

lemma digitValue?_toLower (c : Char) : digitValue? c.toLower = digitValue? c := by
  rw [digitValue?_eq, digitValue?_eq, toNat_toLower]
  split_ifs <;> first | omega | (simp only [Option.some.injEq]; try omega)

lemma decode?_map_toLower (cs : List Char) : decode? (cs.map Char.toLower) = decode? cs := by
  fun_induction decode? cs with
  | case1 => rfl
  | case2 => rfl
  | case3 h l cs ih => simp only [List.map_cons, decode?, digitValue?_toLower, ih]

/-- Digits read as the bytes that they spell. -/
lemma Spells.decode?_eq {digits : List Char} {b : Bytes} (h : Spells digits b) :
    decode? digits = some b := by
  rw [← decode?_map_toLower, h, decode?_encode]

lemma dense_of_decode? {cs : List Char} {b : Bytes} (h : decode? cs = some b) : Text.Dense cs := by
  have hdigit {c : Char} {n : ℕ} (hn : digitValue? c = some n) : Text.isBlank c = false := by
    rw [digitValue?_eq] at hn
    split_ifs at hn <;> exact Text.isBlank_eq_false (by omega) (by omega)
  fun_induction decode? cs generalizing b with
  | case1 => exact fun _ hc => by cases hc
  | case2 => cases h
  | case3 high low cs ih =>
    simp only [Option.bind_eq_bind, Option.bind_eq_some_iff] at h
    obtain ⟨n, hn, m, hm, bs, hbs, -⟩ := h
    exact List.forall_mem_cons.mpr ⟨hdigit hn, List.forall_mem_cons.mpr ⟨hdigit hm, ih hbs⟩⟩

end Hex

/-! ### Identifiers -/

namespace TypeText

variable {s : String}

lemma toNat_of_isNameChar {c : Char} (h : isNameChar c = true) : 33 ≤ c.toNat ∧ c.toNat ≤ 122 := by
  have hrange {low high : Char} (h : low.val ≤ c.val ∧ c.val ≤ high.val) :
      low.toNat ≤ c.toNat ∧ c.toNat ≤ high.toNat :=
    ⟨UInt32.le_iff_toNat_le.mp h.1, UInt32.le_iff_toNat_le.mp h.2⟩
  simp only [isNameChar, isNameStart, Bool.or_eq_true, beq_iff_eq] at h
  rcases h with ((hletter | rfl) | rfl) | hdigit
  · rcases Bool.or_eq_true_iff.mp hletter with hupper | hlower
    · obtain ⟨hlow, hhigh⟩ := hrange (of_decide_eq_true hupper)
      exact ⟨hlow.trans' (by decide), hhigh.trans (by decide)⟩
    · obtain ⟨hlow, hhigh⟩ := Bool.and_eq_true_iff.mp hlower
      obtain ⟨hlow, hhigh⟩ := hrange ⟨of_decide_eq_true hlow, of_decide_eq_true hhigh⟩
      exact ⟨hlow.trans' (by decide), hhigh.trans (by decide)⟩
  · decide
  · decide
  · obtain ⟨hlow, hhigh⟩ := Bool.and_eq_true_iff.mp hdigit
    obtain ⟨hlow, hhigh⟩ := hrange ⟨of_decide_eq_true hlow, of_decide_eq_true hhigh⟩
    exact ⟨hlow.trans' (by decide), hhigh.trans (by decide)⟩

/-- An identifier is its first character and others that names go on with. -/
lemma isName_inv (h : isName s = true) : ∃ c cs, s.toList = c :: cs ∧ isNameStart c = true ∧
    ∀ d ∈ cs, isNameChar d = true := by
  rw [isName, Option.any_eq_true] at h
  obtain ⟨⟨n, rest⟩, hname, hrest⟩ := h
  rw [List.isEmpty_iff] at hrest
  cases hs : s.toList with
  | nil =>
    rw [hs] at hname
    cases hname
  | cons c cs =>
    rw [hs, name?] at hname
    split at hname
    · rename_i hstart
      cases hname
      exact ⟨c, cs, rfl, hstart, List.dropWhile_eq_nil_iff.mp hrest⟩
    · cases hname

lemma isNameChar_of_isName (h : isName s = true) : ∀ c ∈ s.toList, isNameChar c = true := by
  obtain ⟨c, cs, hs, hstart, hrest⟩ := isName_inv h
  rw [hs]
  exact List.forall_mem_cons.mpr ⟨by rw [isNameChar, hstart, Bool.true_or], hrest⟩

lemma dense_of_isName (h : isName s = true) : Text.Dense s.toList := fun c hc =>
  have hc := toNat_of_isNameChar (isNameChar_of_isName h c hc)
  Text.isBlank_eq_false hc.1 hc.2

lemma bracket_notMem_of_isName (h : isName s = true) : '(' ∉ s.toList := fun hmem =>
  absurd (isNameChar_of_isName h '(' hmem) (by decide)

lemma head?_ne_of_isName (h : isName s = true) : s.toList.head? ≠ some '0' := by
  obtain ⟨c, cs, hs, hstart, -⟩ := isName_inv h
  rw [hs]
  rintro ⟨⟩
  exact absurd hstart (by decide)

end TypeText

/-! ### Keys -/

namespace ItemKey

variable {width : ℕ} {query : String}

/-- The query is the mark of a hash and digits that spell these bytes. -/
def IsHashText (b : Bytes) (query : String) : Prop :=
  ∃ digits, query.toList = '0' :: 'x' :: digits ∧ Hex.Spells digits b

lemma ofTrimmed_of_head? {cs : List Char} (h : cs.head? ≠ some '0') : ofTrimmed width cs =
    if '(' ∈ cs then .ok (.signature (.ofList (Text.squeeze cs)))
    else .ok (.name (.ofList cs)) := by
  unfold ofTrimmed
  split
  · exact absurd rfl h
  · rfl

lemma ofString_of_isHashText {b : Bytes} (h : IsHashText b query) (hb : b.length = width) :
    ofString width query = .ok (.hash b) := by
  obtain ⟨digits, hquery, hspells⟩ := h
  have hdigits := hspells.decode?_eq
  have hdense : Text.Dense query.toList := by
    have hmark : Text.Dense ['0', 'x'] := by decide
    rw [hquery]
    exact hmark.append (Hex.dense_of_decode? hdigits)
  rw [ofString, hdense.trim_eq, hquery, ofTrimmed]
  simp only [hdigits, hb, if_true]

lemma ofString_of_isName (h : TypeText.isName query = true) :
    ofString width query = .ok (.name query) := by
  rw [ofString, (TypeText.dense_of_isName h).trim_eq,
    ofTrimmed_of_head? (TypeText.head?_ne_of_isName h),
    if_neg (TypeText.bracket_notMem_of_isName h), String.ofList_toList]

/-- Blanks that are put into a signature do not count, wherever they are put. -/
lemma ofString_of_spaced {signature : String} (hdense : Text.Dense signature.toList)
    (hbracket : '(' ∈ signature.toList) (hhead : signature.toList.head? ≠ some '0')
    (hquery : Text.Spaced signature.toList query.toList) :
    ofString width query = .ok (.signature signature) := by
  have hsqueeze : Text.squeeze (Text.trim query.toList) = signature.toList := by
    rw [Text.squeeze_trim, hquery.squeeze_eq, hdense.squeeze_eq]
  have hmem : '(' ∈ Text.trim query.toList := by
    rw [← hsqueeze] at hbracket
    exact (Text.mem_squeeze.mp hbracket).1
  have hhead' : (Text.trim query.toList).head? ≠ some '0' := by
    intro h
    obtain ⟨cs, hcs⟩ := List.head?_eq_some_iff.mp h
    rw [hcs] at hsqueeze
    exact hhead (by rw [← hsqueeze]; rfl)
  rw [ofString, ofTrimmed_of_head? hhead', if_pos hmem, hsqueeze, String.ofList_toList]

end ItemKey

end AbiSpan
