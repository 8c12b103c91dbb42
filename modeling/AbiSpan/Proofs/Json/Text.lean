import AbiSpan.Bytes
import AbiSpan.Json.Reader
import AbiSpan.Json.Writer
import Mathlib.Tactic

/-!
JSON text that has been written is read back.

The writer leaves no blanks, so what it writes is read from its first character on; behind a value
stands a comma, a closing bracket or nothing, so a number is read to its end and no further. A value
is read with as much fuel as its text is long.
-/

namespace AbiSpan.Json

namespace Reader

open Writer

variable {ds rest : List Char} {rev : List Nat} {n : ℕ}

/-! ### Numbers -/

/-- The text is at its end, or goes on with what stands behind a value. -/
def Stops (cs : List Char) : Prop := ∀ c ∈ cs.head?, c = ',' ∨ c = ']' ∨ c = '\x7d'

lemma takeWhile_digits (h : ∀ c ∈ ds, c.isDigit = true) (hrest : Stops rest) :
    (ds ++ rest).takeWhile Char.isDigit = ds ∧ (ds ++ rest).dropWhile Char.isDigit = rest := by
  rw [List.takeWhile_append_of_pos h, List.dropWhile_append_of_pos h]
  cases rest with
  | nil => simp
  | cons c rest =>
    have hc : c.isDigit = false := by
      rcases hrest c rfl with rfl | rfl | rfl <;> rfl
    simp [hc]

lemma number?_digits (hne : ds ≠ []) (h : ∀ c ∈ ds, c.isDigit = true)
    (hzero : ds.head? = some '0' → ds.length = 1) (hfinite : isFinite ds [] 0 = true)
    (hrest : Stops rest) : number? (ds ++ rest) = some (.natural (digitsToNat ds), rest) := by
  obtain ⟨htake, hdrop⟩ := takeWhile_digits h hrest
  have hwhole : ¬ (ds = [] ∨ ds.head? = some '0' ∧ 1 < ds.length) := by
    rintro (hds | ⟨hhead, hlong⟩)
    · exact hne hds
    · have := hzero hhead
      omega
  obtain ⟨d, ds', rfl⟩ := List.exists_cons_of_ne_nil hne
  have hd : d ≠ '-' := by
    rintro rfl
    exact absurd (h '-' (by simp)) (by decide)
  unfold number?
  rw [List.cons_append] at htake hdrop ⊢
  split
  rename_i sign body hsign
  split at hsign
  · simp_all
  · obtain ⟨rfl, rfl⟩ := Prod.mk.inj hsign
    simp only [htake, hdrop, if_neg hwhole]
    cases rest with
    | nil => simp [hfinite]
    | cons c rest =>
      rcases hrest c rfl with rfl | rfl | rfl <;> simp [hfinite]

lemma digitsToNat_eq (ds : List Char) : digitsToNat ds = Nat.ofDigitChars 10 ds 0 := by
  unfold digitsToNat Nat.ofDigitChars
  simp only [Nat.mul_comm 10]
  rfl

lemma digitsToNat_toDigits (n : ℕ) : digitsToNat (Nat.toDigits 10 n) = n := by
  rw [digitsToNat_eq, Nat.ofDigitChars_toDigits (by decide) (by decide)]

lemma head_toDigits (n : ℕ) (hn : 0 < n) : (Nat.toDigits 10 n).head? ≠ some '0' := by
  induction n using Nat.strongRecOn with
  | ind n ih =>
    rw [Nat.toDigits_eq_if (by decide)]
    split
    · rename_i hlt
      intro hzero
      have hchar : n.digitChar = '0' := by simpa using hzero
      have hvalue := Nat.toNat_digitChar_of_lt_ten hlt
      rw [hchar] at hvalue
      simp at hvalue
      omega
    · rw [List.head?_append_of_ne_nil _ Nat.toDigits_ne_nil]
      exact ih _ (by omega) (by omega)

/-- Only zero begins with a zero. -/
lemma length_of_head_zero (n : ℕ) (h : (Nat.toDigits 10 n).head? = some '0') :
    (Nat.toDigits 10 n).length = 1 := by
  rcases Nat.eq_zero_or_pos n with rfl | hn
  · rfl
  · exact absurd h (head_toDigits n hn)

lemma le_digits (n : ℕ) (ds : List Char) :
    n ≤ ds.foldl (fun n c => n * 10 + (c.toNat - 48)) n := by
  induction ds generalizing n with
  | nil => exact Nat.le_refl n
  | cons c ds ih =>
    have hstep : n ≤ n * 10 + (c.toNat - 48) := by omega
    exact hstep.trans (ih _)

/-- Digits that stay below the bound are all absorbed. -/
lemma absorb_eq {n : ℕ}
    (hn : ds.foldl (fun n c => n * 10 + (c.toNat - 48)) n < significandBound) :
    absorb n ds = (ds.foldl (fun n c => n * 10 + (c.toNat - 48)) n, 0) := by
  induction ds generalizing n with
  | nil => rfl
  | cons c ds ih =>
    rw [List.foldl_cons] at hn ⊢
    rw [absorb, if_pos (Nat.lt_of_le_of_lt (le_digits _ ds) hn)]
    exact ih hn

lemma nearestDouble_le (n : ℕ) : nearestDouble n ≤ 2 * n := by
  have hunit : 0 < n → Nat.pow 2 (n.log2 - 52) ≤ n := fun hn =>
    (Nat.pow_le_pow_right (by decide) (Nat.sub_le _ _)).trans (Nat.log2_self_le (by omega))
  have hbelow : n / Nat.pow 2 (n.log2 - 52) * Nat.pow 2 (n.log2 - 52) ≤ n := Nat.div_mul_le_self _ _
  unfold nearestDouble
  dsimp only
  rcases Nat.eq_zero_or_pos n with rfl | hn
  · decide
  · have := hunit hn
    split
    · omega
    · rw [Nat.add_mul]
      omega

lemma isFinite_digits (hn : digitsToNat ds < significandBound) : isFinite ds [] 0 = true := by
  have hsize : nearestDouble (digitsToNat ds) * nearestDouble (Nat.pow 10 0) < doubleBound := by
    have hone : nearestDouble (Nat.pow 10 0) = 1 := by decide
    have hbound : 2 * significandBound ≤ doubleBound := by decide +kernel
    have hle := nearestDouble_le (digitsToNat ds)
    rw [hone]
    omega
  unfold isFinite
  rw [absorb_eq hn]
  rw [Bool.or_eq_true, Bool.and_eq_true]
  exact .inr ⟨rfl, decide_eq_true hsize⟩

lemma number?_natural (hn : n < offsetBound) (hrest : Stops rest) :
    number? ((toString n).toList ++ rest) = some (.natural n, rest) := by
  have hvalue := digitsToNat_toDigits n
  rw [Nat.toString_eq_repr, Nat.toList_repr]
  rw [number?_digits Nat.toDigits_ne_nil
    (fun c hc => Nat.isDigit_of_mem_toDigits (by decide) (by decide) hc)
    (length_of_head_zero n) (isFinite_digits (by rw [hvalue]; exact hn)) hrest, hvalue]

/-! ### Strings -/

lemma unit?_control :
    ∀ n < 0x20, unit? '0' '0' (hexDigit (n / 16)) (hexDigit (n % 16)) = some n := by
  decide

/-- An escaped character is one code unit, its own. -/
lemma units?_escape (c : Char) (cs : List Char) :
    units? rev (escape c ++ cs) = units? (c.toNat :: rev) cs := by
  unfold escape
  split
  any_goals rfl
  rename_i hquote hslash _ _ _ _ _
  split
  · rename_i hcontrol
    simp only [List.cons_append, List.nil_append]
    rw [units?, unit?_control _ hcontrol]
  · rename_i hplain
    rw [List.cons_append, List.nil_append]
    rw [units?, if_neg]
    · simpa [isControl] using ⟨Nat.le_of_not_lt hplain, hslash⟩
    · exact hquote
    · exact fun _ _ _ _ _ h _ => hslash h
    · exact fun _ _ h _ => hslash h

lemma units?_escaped (cs : List Char) : units? rev (cs.flatMap escape ++ '"' :: rest) =
    some ((cs.map Char.toNat).reverse ++ rev, rest) := by
  induction cs generalizing rev with
  | nil => simp [units?]
  | cons c cs ih =>
    rw [List.flatMap_cons, List.append_assoc, units?_escape, ih]
    simp

/-- A character is no half of a surrogate pair. -/
lemma joinOnto?_char (cs : List Char) (c : Char) (rev : List Nat) :
    joinOnto? cs (c.toNat :: rev) = joinOnto? (c :: cs) rev := by
  have hvalid : c.toNat < 0xd800 ∨ 0xdfff < c.toNat ∧ c.toNat < 0x110000 := c.valid
  have hlow : isLow c.toNat = false := by
    simp only [isLow, Bool.and_eq_false_iff, decide_eq_false_iff_not]
    omega
  have hhigh : isHigh c.toNat = false := by
    simp only [isHigh, Bool.and_eq_false_iff, decide_eq_false_iff_not]
    omega
  cases rev with
  | nil => simp [joinOnto?, hlow, hhigh]
  | cons u rev => simp [joinOnto?, hlow, hhigh]

lemma joinOnto?_chars (cs ds : List Char) :
    joinOnto? ds (cs.map Char.toNat).reverse = some (cs ++ ds) := by
  induction cs using List.reverseRecOn generalizing ds with
  | nil => rfl
  | append_singleton cs c ih =>
    rw [List.map_append, List.reverse_append]
    simp only [List.map_cons, List.map_nil, List.reverse_singleton, List.singleton_append]
    rw [joinOnto?_char, ih]
    simp

lemma quote_append (text : String) (rest : List Char) :
    quote text ++ rest = '"' :: (text.toList.flatMap escape ++ '"' :: rest) := by
  simp [quote]

lemma quoted?_quote (text : String) (rest : List Char) :
    quoted? (text.toList.flatMap escape ++ '"' :: rest) = some (some text, rest) := by
  unfold quoted?
  rw [units?_escaped]
  simp [joinOnto?_chars]

end Reader

/-! ### Values -/

lemma sizeOf_of_mem_pairs {ps : List (String × Json)} {p : String × Json} (h : p ∈ ps) :
    sizeOf p.2 < sizeOf ps := by
  have hp := List.sizeOf_lt_of_mem h
  obtain ⟨key, j⟩ := p
  rw [Prod.mk.sizeOf_spec] at hp
  dsimp only
  omega

/-- Induction on a value over the values in it. -/
@[elab_as_elim]
theorem induct {P : Json → Prop} (null : P .null) (bool : ∀ b, P (.bool b))
    (natural : ∀ n, P (.natural n)) (number : ∀ text, P (.number text))
    (string : ∀ text, P (.string text)) (array : ∀ js, (∀ j ∈ js, P j) → P (.array js))
    (object : ∀ ps, (∀ p ∈ ps, P p.2) → P (.object ps)) (garbled : P .garbled) : ∀ j, P j
  | .null => null
  | .bool b => bool b
  | .natural n => natural n
  | .number text => number text
  | .string text => string text
  | .array js => array js fun j _ =>
    induct null bool natural number string array object garbled j
  | .object ps => object ps fun p hp =>
    have : sizeOf p.2 < sizeOf ps := sizeOf_of_mem_pairs hp
    induct null bool natural number string array object garbled p.2
  | .garbled => garbled

mutual

/-- The value can be written, and its text is read for the shape as it would be for any: no number
but a natural one that fits, nothing garbled, and no array where bytes of a known length may stand
as one. -/
def Writable : Shape → Json → Prop
  | _, .null | _, .bool _ | _, .string _ => True
  | _, .natural n => n < offsetBound
  | _, .number _ | _, .garbled => False
  | s, .array js => (∀ length, s ≠ .fixedBytes length) ∧ WritableItems s 0 js
  | s, .object ps => WritablePairs s ps

def WritableItems : Shape → (place : Nat) → List Json → Prop
  | _, _, [] => True
  | s, place, j :: js => Writable (s.ofPlace place) j ∧ WritableItems s (place + 1) js

def WritablePairs : Shape → List (String × Json) → Prop
  | _, [] => True
  | s, (key, j) :: ps => Writable (s.ofKey (some key)) j ∧ WritablePairs s ps

end

namespace Reader

open Writer

variable {rest : List Char} {s : Shape} {j : Json}

lemma stops_nil : Stops [] := by simp [Stops]

lemma stops_itemChars (js : List Json) (rest : List Char) : Stops (itemChars js ++ rest) := by
  cases js <;> simp [Stops, itemChars]

lemma stops_pairChars (ps : List (String × Json)) (rest : List Char) :
    Stops (pairChars ps ++ rest) := by
  rcases ps with _ | ⟨⟨k, j⟩, ps⟩ <;> simp [Stops, pairChars]

lemma skipBlanks_cons {c : Char} {cs : List Char} (h : isBlank c = false) :
    skipBlanks (c :: cs) = c :: cs := by
  simp [skipBlanks, h]

lemma isBlank_of_isDigit {c : Char} (h : c.isDigit = true) : isBlank c = false := by
  simp only [isBlank, Bool.or_eq_false_iff, beq_eq_false_iff_ne]
  refine ⟨⟨⟨?_, ?_⟩, ?_⟩, ?_⟩ <;> (rintro rfl; cases h)

lemma exists_digits (n : ℕ) : ∃ d ds, chars (.natural n) = d :: ds ∧ d.isDigit = true := by
  rw [chars, Nat.toString_eq_repr, Nat.toList_repr]
  obtain ⟨d, ds, hds⟩ := List.exists_cons_of_ne_nil (Nat.toDigits_ne_nil (n := n) (b := 10))
  exact ⟨d, ds, hds, Nat.isDigit_of_mem_toDigits (b := 10) (n := n) (by decide) (by decide)
    (by rw [hds]; exact List.mem_cons_self ..)⟩

/-- A value begins with a character that is neither blank nor a closing bracket. -/
lemma chars_cons (h : Writable s j) : ∃ c cs, chars j = c :: cs ∧ isBlank c = false ∧ c ≠ ']' := by
  cases j with
  | natural n =>
    obtain ⟨d, ds, hds, hd⟩ := exists_digits n
    refine ⟨d, ds, hds, isBlank_of_isDigit hd, ?_⟩
    rintro rfl
    cases hd
  | null => exact ⟨_, _, rfl, rfl, by decide⟩
  | bool b => cases b <;> exact ⟨_, _, rfl, rfl, by decide⟩
  | string s => exact ⟨_, _, rfl, rfl, by decide⟩
  | array js => cases js <;> exact ⟨_, _, rfl, rfl, by decide⟩
  | object ps => rcases ps with _ | ⟨⟨k, j⟩, ps⟩ <;> exact ⟨_, _, rfl, rfl, by decide⟩
  | number | garbled => exact h.elim

/-- The fuel that reads a value is spent on something. -/
lemma exists_fuel {fuel : ℕ} (h : Writable s j) (hfuel : (chars j).length ≤ fuel) :
    ∃ k, fuel = k + 1 := by
  obtain ⟨c, cs, hcs, -⟩ := chars_cons h
  rw [hcs, List.length_cons] at hfuel
  exact ⟨fuel - 1, by omega⟩

lemma value?_digit {fuel : ℕ} {d : Char} {cs : List Char} (hd : d.isDigit = true) :
    value? (fuel + 1) s (d :: cs) = number? (d :: cs) := by
  unfold value?
  rw [skipBlanks_cons (isBlank_of_isDigit hd)]
  split <;> simp_all

lemma value?_natural {fuel n : ℕ} (hn : n < offsetBound) (hrest : Stops rest) :
    value? (fuel + 1) s (chars (.natural n) ++ rest) = some (.natural n, rest) := by
  have hnumber : number? (chars (.natural n) ++ rest) = some (.natural n, rest) :=
    number?_natural hn hrest
  obtain ⟨d, ds, hds, hd⟩ := exists_digits n
  rw [hds, List.cons_append] at hnumber ⊢
  rw [value?_digit hd, hnumber]

lemma value?_quote {fuel : ℕ} (text : String) :
    value? (fuel + 1) s (quote text ++ rest) = some (.string text, rest) := by
  rw [quote_append]
  unfold value?
  rw [skipBlanks_cons (by decide)]
  simp only [quoted?_quote]
  rfl

/-- The value is read back from its text, for whatever shape it may be written for. -/
def ReadsBack (j : Json) : Prop :=
  ∀ {fuel : Nat} {s : Shape} {rest : List Char}, Writable s j → (chars j).length ≤ fuel →
    Stops rest → value? fuel s (chars j ++ rest) = some (j, rest)

/-! #### Items -/

lemma items?_last {fuel place : ℕ} {cs : List Char}
    (hj : value? fuel (s.ofPlace place) cs = some (j, ']' :: rest)) :
    items? (fuel + 1) s place cs = some ([j], rest) := by
  rw [items?, hj]
  rfl

lemma items?_more {fuel place : ℕ} {js : List Json} {cs cs' : List Char}
    (hj : value? fuel (s.ofPlace place) cs = some (j, ',' :: cs'))
    (hjs : items? fuel s (place + 1) cs' = some (js, rest)) :
    items? (fuel + 1) s place cs = some (j :: js, rest) := by
  rw [items?, hj]
  simp only [Option.bind_eq_bind, Option.bind_some]
  rw [skipBlanks_cons (by decide)]
  simp only [hjs]
  rfl

lemma items?_chars {js : List Json} {fuel place : ℕ} (hback : ∀ i ∈ j :: js, ReadsBack i)
    (h : WritableItems s place (j :: js)) (hfuel : (chars j ++ itemChars js).length ≤ fuel) :
    items? fuel s place (chars j ++ (itemChars js ++ rest)) = some (j :: js, rest) := by
  induction js generalizing j place fuel with
  | nil =>
    simp only [itemChars, List.length_append, List.length_singleton] at hfuel
    obtain ⟨k, rfl⟩ : ∃ k, fuel = k + 1 := ⟨fuel - 1, by omega⟩
    exact items?_last (hback j (by simp) h.1 (by omega) (stops_itemChars _ _))
  | cons i js ih =>
    simp only [itemChars, List.length_append, List.length_cons] at hfuel
    obtain ⟨k, rfl⟩ : ∃ k, fuel = k + 1 := ⟨fuel - 1, by omega⟩
    have hi : items? k s (place + 1) (chars i ++ (itemChars js ++ rest)) = some (i :: js, rest) :=
      ih (fun i hi => hback i (List.mem_cons_of_mem _ hi)) h.2 (by rw [List.length_append]; omega)
    have hj : value? k (s.ofPlace place) (chars j ++ (itemChars (i :: js) ++ rest)) =
        some (j, itemChars (i :: js) ++ rest) :=
      hback j (by simp) h.1 (by omega) (stops_itemChars _ _)
    rw [itemChars, List.cons_append, List.append_assoc] at hj ⊢
    exact items?_more hj hi

/-- An array that may be one is read item by item, unless it is closed at once. -/
lemma value?_bracket {fuel : ℕ} {c : Char} {cs : List Char} (hs : ∀ length, s ≠ .fixedBytes length)
    (hblank : isBlank c = false) (hclose : c ≠ ']') : value? (fuel + 1) s ('[' :: c :: cs) =
      (items? fuel s 0 (c :: cs)).map fun (js, rest) => (.array js, rest) := by
  rw [value?, skipBlanks_cons (by decide)]
  cases s with
  | fixedBytes length => exact (hs length rfl).elim
  | _ =>
    simp only
    rw [skipBlanks_cons hblank]
    split
    · simp_all
    · cases items? fuel _ 0 (c :: cs) <;> rfl

lemma readsBack_array (js : List Json) (h : ∀ i ∈ js, ReadsBack i) : ReadsBack (.array js) := by
  intro fuel s rest hj hfuel hrest
  obtain ⟨k, rfl⟩ := exists_fuel hj hfuel
  obtain ⟨hshape, hjs⟩ := hj
  cases js with
  | nil =>
    cases s with
    | fixedBytes length => exact (hshape length rfl).elim
    | _ => rfl
  | cons j js =>
    rw [chars, List.length_cons] at hfuel
    have hitems : items? k s 0 (chars j ++ (itemChars js ++ rest)) = some (j :: js, rest) :=
      items?_chars h hjs (by omega)
    obtain ⟨c, cs, hcs, hblank, hclose⟩ := chars_cons hjs.1
    rw [chars, List.cons_append, List.append_assoc]
    rw [hcs, List.cons_append] at hitems ⊢
    rw [value?_bracket hshape hblank hclose, hitems]
    rfl

/-! #### Pairs -/

lemma objectOf_some (ps : List (String × Json)) :
    objectOf (ps.map fun p => (some p.1, p.2)) = .object ps := by
  have hkeys : (ps.map fun p => (some p.1, p.2)).mapM
      (fun (p : Option String × Json) => p.1.map (·, p.2)) = some ps := by
    induction ps with
    | nil => rfl
    | cons p ps ih => simp [ih]
  unfold objectOf
  rw [hkeys]

lemma pairs?_last {key : String} {fuel : ℕ} {cs : List Char}
    (hj : value? fuel (s.ofKey (some key)) cs = some (j, '\x7d' :: rest)) :
    pairs? (fuel + 1) s (quote key ++ ':' :: cs) = some ([(some key, j)], rest) := by
  rw [quote_append, pairs?, skipBlanks_cons (by decide)]
  simp only [quoted?_quote, Option.bind_eq_bind, Option.bind_some]
  rw [skipBlanks_cons (by decide)]
  simp only [hj]
  rfl

lemma pairs?_more {key : String} {ps : List (Option String × Json)} {fuel : ℕ}
    {cs cs' : List Char}
    (hj : value? fuel (s.ofKey (some key)) cs = some (j, ',' :: cs'))
    (hps : pairs? fuel s cs' = some (ps, rest)) :
    pairs? (fuel + 1) s (quote key ++ ':' :: cs) = some ((some key, j) :: ps, rest) := by
  rw [quote_append, pairs?, skipBlanks_cons (by decide)]
  simp only [quoted?_quote, Option.bind_eq_bind, Option.bind_some]
  rw [skipBlanks_cons (by decide)]
  simp only [hj, Option.bind_some]
  rw [skipBlanks_cons (by decide)]
  simp only [hps]
  rfl

lemma pairs?_chars {key : String} {ps : List (String × Json)} {fuel : ℕ}
    (hback : ∀ p ∈ (key, j) :: ps, ReadsBack p.2) (h : WritablePairs s ((key, j) :: ps))
    (hfuel : (quote key ++ ':' :: (chars j ++ pairChars ps)).length ≤ fuel) :
    pairs? fuel s (quote key ++ ':' :: (chars j ++ (pairChars ps ++ rest))) =
      some ((some key, j) :: ps.map fun p => (some p.1, p.2), rest) := by
  induction ps generalizing key j fuel with
  | nil =>
    simp only [pairChars, List.length_append, List.length_cons, List.length_nil] at hfuel
    obtain ⟨k, rfl⟩ : ∃ k, fuel = k + 1 := ⟨fuel - 1, by omega⟩
    have hj : ReadsBack j := hback (key, j) (by simp)
    exact pairs?_last (hj h.1 (by omega) (stops_pairChars _ _))
  | cons p ps ih =>
    obtain ⟨key', i⟩ := p
    simp only [pairChars, List.length_append, List.length_cons] at hfuel
    obtain ⟨k, rfl⟩ : ∃ k, fuel = k + 1 := ⟨fuel - 1, by omega⟩
    have hj : ReadsBack j := hback (key, j) (by simp)
    have hps : pairs? k s (quote key' ++ ':' :: (chars i ++ (pairChars ps ++ rest))) =
        some ((some key', i) :: ps.map fun p => (some p.1, p.2), rest) := by
      refine ih (fun p hp => hback p (List.mem_cons_of_mem _ hp)) h.2 ?_
      simp only [List.length_append, List.length_cons]
      omega
    have hfirst : value? k (s.ofKey (some key)) (chars j ++ (pairChars ((key', i) :: ps) ++ rest)) =
        some (j, pairChars ((key', i) :: ps) ++ rest) := hj h.1 (by omega) (stops_pairChars _ _)
    have hmore : pairChars ((key', i) :: ps) ++ rest =
        ',' :: (quote key' ++ ':' :: (chars i ++ (pairChars ps ++ rest))) := by
      simp [pairChars]
    rw [hmore] at hfirst ⊢
    exact pairs?_more hfirst hps

/-- An object is read pair by pair, unless it is closed at once. -/
lemma value?_brace {fuel : ℕ} (key : String) (cs : List Char) :
    value? (fuel + 1) s ('\x7b' :: (quote key ++ cs)) =
      (pairs? fuel s (quote key ++ cs)).map fun (ps, rest) => (objectOf ps, rest) := by
  rw [quote_append, value?, skipBlanks_cons (by decide)]
  simp only
  rw [skipBlanks_cons (by decide)]
  split
  · simp_all
  · cases pairs? fuel s ('"' :: (key.toList.flatMap escape ++ '"' :: cs)) <;> rfl

lemma readsBack_object (ps : List (String × Json)) (h : ∀ p ∈ ps, ReadsBack p.2) :
    ReadsBack (.object ps) := by
  intro fuel s rest hj hfuel hrest
  obtain ⟨k, rfl⟩ := exists_fuel hj hfuel
  rcases ps with _ | ⟨⟨key, j⟩, ps⟩
  · rfl
  · rw [chars, List.length_cons] at hfuel
    have hpairs : pairs? k s (quote key ++ ':' :: (chars j ++ (pairChars ps ++ rest))) =
        some ((some key, j) :: ps.map fun p => (some p.1, p.2), rest) :=
      pairs?_chars h hj (by omega)
    have htext : chars (.object ((key, j) :: ps)) ++ rest =
        '\x7b' :: (quote key ++ ':' :: (chars j ++ (pairChars ps ++ rest))) := by
      simp [chars]
    rw [htext, value?_brace, hpairs]
    exact congrArg (fun o => some (o, rest)) (objectOf_some ((key, j) :: ps))

/-- **A value that has been written is read back**, up to where its text ends. -/
theorem readsBack (j : Json) : ReadsBack j := by
  induction j using Json.induct with
  | null =>
    intro fuel s rest h hfuel _
    obtain ⟨k, rfl⟩ := exists_fuel h hfuel
    rfl
  | bool b =>
    intro fuel s rest h hfuel _
    obtain ⟨k, rfl⟩ := exists_fuel h hfuel
    cases b <;> rfl
  | natural n =>
    intro fuel s rest h hfuel hrest
    obtain ⟨k, rfl⟩ := exists_fuel h hfuel
    exact value?_natural h hrest
  | string text =>
    intro fuel s rest h hfuel _
    obtain ⟨k, rfl⟩ := exists_fuel h hfuel
    exact value?_quote text
  | number | garbled => exact fun h _ _ => h.elim
  | array js ih => exact readsBack_array js ih
  | object ps ih => exact readsBack_object ps ih

end Reader

/-- The text of a value is read as the value. -/
theorem ofShapedString?_render {s : Shape} {j : Json} (h : Writable s j) :
    ofShapedString? s j.render = some j := by
  have htext : j.render.toList = Writer.chars j := String.toList_ofList
  have hread : Reader.value? (2 * (Writer.chars j).length + 2) s (Writer.chars j ++ []) =
      some (j, []) := Reader.readsBack j h (by omega) Reader.stops_nil
  rw [List.append_nil] at hread
  unfold ofShapedString?
  dsimp only
  rw [htext, hread]
  rfl

end AbiSpan.Json
