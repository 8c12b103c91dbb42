import AbiSpan.Value
import AbiSpan.Proofs.Bytes
import AbiSpan.Proofs.SlotSize

/-!
The encoding of values, as an encoder writes it.

A row of values is written as slots and then tails. A static value is written in its slot; the
slot of a dynamic one holds how far ahead of the start of the row its tail is, and the tails
follow one another in the order of the slots, without gaps. A payload is filled up with zeros to
a whole number of words.
-/

namespace AbiSpan

/-! ### Slots and tails -/

/-- A member of a row, written down, and whether that is to stand in its slot or behind it. -/
structure Part where
  outOfLine : Bool
  bytes : Bytes

namespace Part

/-- How long the slot of the part is. -/
def slotSize (p : Part) : Nat := if p.outOfLine then wordSize else p.bytes.length

/-- How long the slot and the tail of the part are. -/
def room (p : Part) : Nat := (if p.outOfLine then wordSize else 0) + p.bytes.length

/-- The slots of a row; the first tail is `ahead` of its start. -/
def slots (ahead : Nat) : List Part → Bytes
  | [] => []
  | ⟨true, s⟩ :: ps => Bytes.ofNat wordSize ahead ++ slots (ahead + s.length) ps
  | ⟨false, s⟩ :: ps => s ++ slots ahead ps

/-- The tails of a row. -/
def tails : List Part → Bytes
  | [] => []
  | ⟨true, s⟩ :: ps => s ++ tails ps
  | ⟨false, _⟩ :: ps => tails ps

/-- How far ahead of the start of the row its first tail is. -/
def slotsSize (ps : List Part) : Nat := (ps.map slotSize).sum

/-- The slots and the tails. -/
def layOut (ps : List Part) : Bytes := slots (slotsSize ps) ps ++ tails ps

@[simp] lemma length_slots (ahead : ℕ) (ps : List Part) :
    (slots ahead ps).length = slotsSize ps := by
  induction ps generalizing ahead with
  | nil => rfl
  | cons p ps ih => rcases p with ⟨_ | _, s⟩ <;> simp [slots, slotsSize, slotSize, ih]

lemma length_layOut (ps : List Part) : (layOut ps).length = (ps.map room).sum := by
  rw [layOut, List.length_append, length_slots]
  induction ps with
  | nil => rfl
  | cons p ps ih =>
    rcases p with ⟨_ | _, s⟩ <;>
      simp only [slotsSize, tails, slotSize, room, List.map_cons, List.sum_cons,
        List.length_append, Bool.false_eq_true, if_true, if_false] at ih ⊢ <;> omega

/-- Without tails a row is as long as its slots. -/
lemma length_layOut_of_tails {ps : List Part} (h : tails ps = []) :
    (layOut ps).length = slotsSize ps := by
  simp [layOut, h]

end Part

/-! ### Values -/

namespace Value

/-- The word of a value of one word. -/
def word : Value → Bytes
  | .bool b => Bytes.ofNat wordSize b.toNat
  | .int _ n => Bytes.ofNat wordSize (n % wordBound).toNat
  | .uint _ n => Bytes.ofNat wordSize n
  | .fixedBytes _ w => w
  | .address a => List.replicate (wordSize - a.length) 0 ++ a
  | _ => []

/-- The bytes of a byte string or a text. -/
def payload : Value → Bytes
  | .bytes b => b
  | .string s => s.toUTF8.toList
  | _ => []

/-- A payload behind its length, with zeros up to a whole number of words. -/
def ofLength (s : Bytes) : Bytes :=
  Bytes.ofNat wordSize s.length ++ (s ++ List.replicate (padded s.length - s.length) 0)

mutual

/-- A value written down where it starts: in its slot, or behind its pointer. -/
def encode : AbiType → Value → Bytes
  | .array t, .array vs =>
    Bytes.ofNat wordSize vs.length ++ Part.layOut (parts (List.replicate vs.length t) vs)
  | .fixedArray t n, .fixedArray vs => Part.layOut (parts (List.replicate n t) vs)
  | .tuple ts, .tuple vs => Part.layOut (parts ts vs)
  | .bytes, v => ofLength v.payload
  | .string, v => ofLength v.payload
  | _, v => v.word

/-- The values of a row, written down one by one. -/
def parts : List AbiType → List Value → List Part
  | t :: ts, v :: vs => ⟨t.isDynamic, encode t v⟩ :: parts ts vs
  | _, _ => []

end

/-- The encoding of a row of values. -/
def encodeRow (ts : List AbiType) (vs : List Value) : Bytes := Part.layOut (parts ts vs)

/-- The values inside a compound value. -/
def members : Value → List Value
  | .array vs | .fixedArray vs | .tuple vs => vs
  | _ => []

mutual

/-- The words and payloads of a value, in order. -/
def atoms : Value → List Bytes
  | .array vs | .fixedArray vs | .tuple vs => atomsOf vs
  | .bytes b => [payload (.bytes b)]
  | .string s => [payload (.string s)]
  | v => [v.word]

def atomsOf : List Value → List Bytes
  | [] => []
  | v :: vs => v.atoms ++ atomsOf vs

end

/-- The value is one of the type: its number in range, its bytes as many as there should be, its
members of the types of the members. -/
inductive HasType : Value → AbiType → Prop
  | bool (b : Bool) : HasType (.bool b) .bool
  | int {bits : Nat} {n : Int} : bits < 256 → -2 ^ bits ≤ n → n < 2 ^ bits →
    HasType (.int (bits + 1) n) (.int (bits + 1))
  | uint {bits n : Nat} : bits ≤ 256 → n < 2 ^ bits → HasType (.uint bits n) (.uint bits)
  | fixedBytes {s : Bytes} : s.length ≤ wordSize →
    HasType (.fixedBytes s.length (s ++ List.replicate (wordSize - s.length) 0))
      (.fixedBytes s.length)
  | address {a : Bytes} : a.length = 20 → HasType (.address a) .address
  | bytes (b : Bytes) : HasType (.bytes b) .bytes
  | string (s : String) : HasType (.string s) .string
  | array {t : AbiType} {vs : List Value} :
    List.Forall₂ HasType vs (List.replicate vs.length t) → HasType (.array vs) (.array t)
  | fixedArray {t : AbiType} {vs : List Value} {n : Nat} :
    List.Forall₂ HasType vs (List.replicate n t) → HasType (.fixedArray vs) (.fixedArray t n)
  | tuple {ts : List AbiType} {vs : List Value} : List.Forall₂ HasType vs ts →
    HasType (.tuple vs) (.tuple ts)

variable {t : AbiType} {ts : List AbiType} {v : Value} {vs : List Value}

/-! ### The encoding, by the shape of the type -/

lemma length_word (h : v.HasType t) (ht : t.isScalar = true) : v.word.length = wordSize := by
  cases h with
  | fixedBytes hs => simp only [word, List.length_append, List.length_replicate]; omega
  | address ha => simp only [word, List.length_append, List.length_replicate, ha]; rfl
  | bool | int | uint => exact Bytes.length_ofNat _ _
  | _ => cases ht

lemma encode_scalar (h : v.HasType t) (ht : t.isScalar = true) : encode t v = v.word := by
  cases h with
  | bool | int | uint | fixedBytes | address => simp only [encode]
  | _ => cases ht

lemma atoms_scalar (h : v.HasType t) (ht : t.isScalar = true) : v.atoms = [v.word] := by
  cases h with
  | bool | int | uint | fixedBytes | address => simp only [atoms]
  | _ => cases ht

lemma encode_payload (h : v.HasType t) (ht : t.isPayload = true) :
    encode t v = ofLength v.payload := by
  cases h with
  | bytes | string => simp only [encode]
  | _ => cases ht

lemma atoms_payload (h : v.HasType t) (ht : t.isPayload = true) : v.atoms = [v.payload] := by
  cases h with
  | bytes | string => simp only [atoms]
  | _ => cases ht

lemma not_hasType_function : ¬ v.HasType .function := fun h => by cases h

/-- A value of an array type is an array of so many values. -/
lemma HasType.array_inv (h : v.HasType (.array t)) :
    List.Forall₂ HasType v.members (List.replicate v.members.length t) ∧
      encode (.array t) v = Bytes.ofNat wordSize v.members.length ++
        encodeRow (List.replicate v.members.length t) v.members ∧
      v.atoms = atomsOf v.members := by
  rcases h with _ | _ | _ | _ | _ | _ | _ | hvs
  exact ⟨hvs, rfl, rfl⟩

/-- A value of a row type is a row of values. -/
lemma HasType.row_inv (h : v.HasType t) (hm : t.members? = some ts) :
    List.Forall₂ HasType v.members ts ∧ encode t v = encodeRow ts v.members ∧
      v.atoms = atomsOf v.members := by
  cases h with
  | fixedArray hvs => cases hm; exact ⟨hvs, rfl, rfl⟩
  | tuple hvs => cases hm; exact ⟨hvs, rfl, rfl⟩
  | _ => cases hm

/-! ### How long encodings are -/

/-- Static values have no tails. -/
lemma tails_parts_of_static (h : List.Forall₂ HasType vs ts) (hd : ∀ t ∈ ts, t.isDynamic = false) :
    Part.tails (parts ts vs) = [] := by
  induction h with
  | nil => rfl
  | @cons v t vs ts _ _ ih =>
    rw [parts, hd t (by simp), Part.tails, ih fun u hu => hd u (by simp [hu])]

lemma slotsSize_parts_of_length (h : List.Forall₂ HasType vs ts)
    (hlen : ∀ t ∈ ts, t.isDynamic = false →
      ∀ v : Value, v.HasType t → (encode t v).length = t.slotSize) :
    Part.slotsSize (parts ts vs) = AbiType.rowSize ts := by
  induction h with
  | nil => rfl
  | @cons v t vs ts hv _ ih =>
    have hrest := ih fun u hu => hlen u (by simp [hu])
    have hslot : Part.slotSize ⟨t.isDynamic, encode t v⟩ = t.slotSize := by
      cases hd : t.isDynamic with
      | false => exact hlen t (by simp) hd v hv
      | true => exact (AbiType.slotSize_of_isDynamic hd).symm
    rw [parts, Part.slotsSize, List.map_cons, List.sum_cons, hslot, AbiType.rowSize_cons, ← hrest]
    rfl

/-- A static value is as long as its slot. -/
lemma length_encode_of_static (hd : t.isDynamic = false) (h : v.HasType t) :
    (encode t v).length = t.slotSize := by
  induction t using AbiType.induct generalizing v with
  | scalar t ht => rw [encode_scalar h ht, length_word h ht, AbiType.slotSize_of_isScalar ht]
  | function => exact (not_hasType_function h).elim
  | payload t ht => rw [AbiType.isPayload_isDynamic ht] at hd; cases hd
  | array t ih => cases hd
  | row t ts hm ih =>
    obtain ⟨hvs, henc, -⟩ := h.row_inv hm
    have hds := AbiType.isDynamic_of_mem_members? hm hd
    have hslots := slotsSize_parts_of_length hvs fun u hu hu' v hv => ih u hu hu' hv
    rw [henc, encodeRow, Part.length_layOut_of_tails (tails_parts_of_static hvs hds), hslots,
      AbiType.slotSize_of_members? hm hd]

/-- The slots of values of a row of types are those of the types. -/
lemma slotsSize_parts (h : List.Forall₂ HasType vs ts) :
    Part.slotsSize (parts ts vs) = AbiType.rowSize ts :=
  slotsSize_parts_of_length h fun _ _ hd _ hv => length_encode_of_static hd hv

end Value

end AbiSpan
