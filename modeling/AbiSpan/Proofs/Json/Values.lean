import AbiSpan.Limits.Json
import AbiSpan.LogFilter.Json
import AbiSpan.Proofs.Json.Text
import AbiSpan.Proofs.LogFilter
import AbiSpan.Transaction.Json

/-!
What a session is given survives JSON.

A value is written in one way and may be read from many: members may be left out, stand in an array,
or come with others that are ignored, and bytes may be written in either case or as numbers. The
text that is written for a value is read as that value, so whatever text it came from, writing it
and reading it again gives the same.
-/

namespace AbiSpan

open Json

/-! ### Codes -/

namespace Json

variable {α : Type} {s : Shape} {write : α → Json} {read : Json → Option α} {Valid : α → Prop}

/-- The value that a text is read as, by way of a JSON value. -/
def readText (s : Shape) (read : Json → Option α) (text : String) : Option α :=
  (ofShapedString? s text).bind read

/-- `read` undoes `write` for the values that it gives, which are the valid ones. -/
structure Code (s : Shape) (write : α → Json) (read : Json → Option α) (Valid : α → Prop) :
    Prop where
  writable : ∀ v, Valid v → Writable s (write v)
  read_write : ∀ v, Valid v → read (write v) = some v
  valid : ∀ j v, read j = some v → Valid v

/-- Valid values are read from their text, all values that are read are valid, and so they are read
again from what is written for them. -/
structure Survives (write : α → Json) (readText : String → Option α) (Valid : α → Prop) :
    Prop where
  read_render : ∀ v, Valid v → readText (write v).render = some v
  valid : ∀ text v, readText text = some v → Valid v
  again : ∀ text v, readText text = some v → readText (write v).render = some v

lemma Code.survives (h : Code s write read Valid) : Survives write (readText s read) Valid := by
  have hrender (v : α) (hv : Valid v) : readText s read (write v).render = some v := by
    rw [readText, ofShapedString?_render (h.writable v hv)]
    exact h.read_write v hv
  have hvalid (text : String) (v : α) (hread : readText s read text = some v) : Valid v := by
    obtain ⟨j, -, hj⟩ := Option.bind_eq_some_iff.mp hread
    exact h.valid j v hj
  exact ⟨hrender, hvalid, fun text v hread => hrender v (hvalid text v hread)⟩

lemma mapM_map_of_read {xs : List α} (h : ∀ x ∈ xs, read (write x) = some x) :
    (xs.map write).mapM read = some xs := by
  induction xs with
  | nil => rfl
  | cons x xs ih =>
    rw [List.map_cons, List.mapM_cons, h x (by simp), ih fun y hy => h y (by simp [hy])]
    rfl

lemma writableItems_map {place : ℕ} {xs : List α}
    (h : ∀ place, ∀ x ∈ xs, Writable (s.ofPlace place) (write x)) :
    WritableItems s place (xs.map write) := by
  induction xs generalizing place with
  | nil => trivial
  | cons x xs ih => exact ⟨h place x (by simp), ih fun place y hy => h place y (by simp [hy])⟩

/-- What holds of every value that is read holds of a member that must be there. -/
lemma valid_of_required (h : ∀ j v, read j = some v → Valid v) {m : Option Json} {v : α}
    (hv : required read m = some v) : Valid v := by
  cases m with
  | none => cases hv
  | some j => exact h j v hv

/-- And of one that may be left out, if it holds of what stands for it. -/
lemma valid_of_orElse {absent : α} (habsent : Valid absent) (h : ∀ j v, read j = some v → Valid v)
    {m : Option Json} {v : α} (hv : orElse absent read m = some v) : Valid v := by
  cases m with
  | none =>
    cases hv
    exact habsent
  | some j => exact h j v hv

lemma natBelow?_eq_some (bound : ℕ) (j : Json) (n : ℕ) (h : j.natBelow? bound = some n) :
    n < bound := by
  unfold natBelow? at h
  split at h
  · split at h
    · cases h
      assumption
    · cases h
  · cases h

end Json

/-! ### Bytes -/

lemma Bytes.ofJson?_toJson (b : Bytes) : Bytes.ofJson? (Bytes.toJson b) = some b := by
  show Hex.ofText? (Hex.marked b) = some b
  unfold Hex.ofText? Hex.marked Hex.text
  simp only [String.toList_append, String.toList_ofList]
  exact Hex.decode?_encode b

lemma Fixed.ofJson?_toJson {n : ℕ} (f : Fixed n) : Fixed.ofJson? n f.toJson = some f := by
  show (Bytes.ofJson? (Bytes.toJson f.bytes)).bind (ofBytes? n) = some f
  rw [Bytes.ofJson?_toJson]
  simp [ofBytes?]

/-! ### Numbers -/

lemma Span.code : Code .any Span.toJson Span.ofJson?
    fun v => v.offset < offsetBound ∧ v.size < offsetBound where
  writable v hv := by
    simpa [Span.toJson, Writable, WritablePairs] using hv
  read_write v hv := by
    simp [Span.toJson, Span.ofJson?, members?, single?, valuesOf, required, natBelow?, hv]
  valid j v h := by
    obtain ⟨ms, -, h⟩ := Option.bind_eq_some_iff.mp h
    split at h
    · obtain ⟨offset, hoffset, h⟩ := Option.bind_eq_some_iff.mp h
      obtain ⟨size, hsize, h⟩ := Option.bind_eq_some_iff.mp h
      cases h
      exact ⟨valid_of_required (natBelow?_eq_some _) hoffset,
        valid_of_required (natBelow?_eq_some _) hsize⟩
    · cases h

lemma Limits.code : Code .any Limits.toJson Limits.ofJson?
    fun v => v.maxInflation < offsetBound where
  writable v hv := by
    simpa [Limits.toJson, Writable, WritablePairs] using hv
  read_write v hv := by
    simp [Limits.toJson, Limits.ofJson?, members?, single?, valuesOf, orElse, natBelow?, bool?, hv]
  valid j v h := by
    obtain ⟨ms, -, h⟩ := Option.bind_eq_some_iff.mp h
    split at h
    · obtain ⟨maxInflation, hmax, h⟩ := Option.bind_eq_some_iff.mp h
      obtain ⟨allowLoose, -, h⟩ := Option.bind_eq_some_iff.mp h
      cases h
      exact valid_of_orElse (by decide) (natBelow?_eq_some _) hmax
    · cases h

lemma Settings.code : Code .any Settings.toJson Settings.ofJson?
    fun v => v.limits.maxInflation < offsetBound where
  writable v hv := by
    simpa [Settings.toJson, Writable, WritablePairs] using Limits.code.writable v.limits hv
  read_write v hv := by
    have hlimits : Limits.ofJson? v.limits.toJson = some v.limits := Limits.code.read_write _ hv
    simp [Settings.toJson, Settings.ofJson?, members?, single?, valuesOf, orElse, bool?, hlimits]
  valid j v h := by
    obtain ⟨ms, -, h⟩ := Option.bind_eq_some_iff.mp h
    split at h
    · obtain ⟨limits, hlimits, h⟩ := Option.bind_eq_some_iff.mp h
      obtain ⟨looseLogData, -, h⟩ := Option.bind_eq_some_iff.mp h
      cases h
      exact valid_of_orElse (by decide) Limits.code.valid hlimits
    · cases h

/-! ### Transactions and receipts -/

lemma TxKind.ofJson?_toJson (k : TxKind) : TxKind.ofJson? k.toJson = some k := by
  cases k <;> rfl

lemma Transaction.code : Code Transaction.shape Transaction.toJson Transaction.ofJson?
    fun _ => True where
  writable v _ := by
    have hkind : v.kind.code < offsetBound := by cases v.kind <;> decide
    cases hto : v.destination <;>
      simp [Transaction.toJson, hto, Writable, WritablePairs, TxKind.toJson, Fixed.toJson,
        Bytes.toJson, hkind]
  read_write v _ := by
    have hkind : TxKind.ofJson? v.kind.toJson = some v.kind := TxKind.ofJson?_toJson _
    have hinput : Bytes.ofJson? (Bytes.toJson v.input) = some v.input := Bytes.ofJson?_toJson _
    obtain ⟨kind, destination, input⟩ := v
    cases destination with
    | none =>
      simp [Transaction.toJson, Transaction.ofJson?, members?, single?, valuesOf, required, orElse,
        hkind, hinput]
    | some a =>
      have ha : Fixed.ofJson? 20 (.string (Hex.marked a.bytes)) = some a := Fixed.ofJson?_toJson a
      have hto : a.toJson = .string (Hex.marked a.bytes) := rfl
      simp [Transaction.toJson, Transaction.ofJson?, members?, single?, valuesOf, required, orElse,
        hto, ha, hkind, hinput]
  valid _ _ _ := trivial

lemma Log.sound_toJson (l : Log) : l.toJson.sound (maxDepth - 2) = true := by
  have htopics (topics : List Topic) : soundAll (maxDepth - 2 - 1 - 1) (topics.map Fixed.toJson) =
      true := by
    induction topics with
    | nil => rfl
    | cons f topics ih => simpa [soundAll, Fixed.toJson, Bytes.toJson, sound] using ih
  simpa [Log.toJson, sound, soundPairs, Fixed.toJson, Bytes.toJson, maxDepth] using
    htopics l.topics

lemma Log.ofJson?_toJson (l : Log) : Log.ofJson? 2 l.toJson = some l := by
  have hsound := Log.sound_toJson l
  have haddress : Fixed.ofJson? 20 l.address.toJson = some l.address := Fixed.ofJson?_toJson _
  have htopics : (l.topics.map Fixed.toJson).mapM (Fixed.ofJson? 32) = some l.topics :=
    mapM_map_of_read fun f _ => Fixed.ofJson?_toJson f
  have hdata : Bytes.ofJson? (Bytes.toJson l.data) = some l.data := Bytes.ofJson?_toJson _
  unfold Log.toJson at hsound ⊢
  unfold Log.ofJson?
  simp [hsound, single?, valuesOf, haddress, array?, htopics, hdata]

/-- Of a log only the address is read for a shape of its own. -/
def Log.shape : Shape := .record [("address", .fixedBytes 20)]

lemma Log.writable (l : Log) : Writable Log.shape l.toJson := by
  have hany : Log.shape.ofKey (some "topics") = .any := rfl
  have htopics : WritableItems .any 0 (l.topics.map Fixed.toJson) :=
    writableItems_map fun _ _ _ => trivial
  simp [Log.toJson, Fixed.toJson, Bytes.toJson, Writable, WritablePairs, hany, htopics]

lemma Receipt.code : Code Receipt.shape Receipt.toJson Receipt.ofJson? fun _ => True where
  writable v _ := by
    have hlist : Receipt.shape.ofKey (some "logs") = .list Log.shape := rfl
    have hlogs : WritableItems (.list Log.shape) 0 (v.logs.map Log.toJson) :=
      writableItems_map fun _ l _ => l.writable
    simp [Receipt.toJson, Writable, WritablePairs, hlist, hlogs]
  read_write v _ := by
    have hlogs : (v.logs.map Log.toJson).mapM (Log.ofJson? 2) = some v.logs :=
      mapM_map_of_read fun l _ => Log.ofJson?_toJson l
    simp [Receipt.toJson, Receipt.ofJson?, members?, single?, valuesOf, array?, hlogs]
  valid _ _ _ := trivial

/-! ### Log filters -/

namespace LogFilter

lemma insert_of_lt {cs : List (String × String)} {name level : String}
    (h : ∀ c ∈ cs, c.1 < name) : insert name level cs = cs ++ [(name, level)] := by
  induction cs with
  | nil => rfl
  | cons c cs ih =>
    have hc : c.1 < name := h c (by simp)
    rw [insert, if_neg hc.not_gt, if_neg hc.ne', ih fun d hd => h d (by simp [hd]),
      List.cons_append]

/-- Puts the level of a pair of an object under its name. -/
def insertPair (cs : List (String × String)) (p : String × Json) :
    Option (List (String × String)) := do return insert p.1 (← p.2.string?) cs

/-- Components that are in order are put back where they were. -/
lemma foldlM_insertPair {acc cs : List (String × String)} (h : Ordered (acc ++ cs)) :
    (cs.map fun c => (c.1, Json.string c.2)).foldlM insertPair acc = some (acc ++ cs) := by
  induction cs generalizing acc with
  | nil => simp
  | cons c cs ih =>
    have hlast : insertPair acc (c.1, .string c.2) = some (acc ++ [c]) := by
      refine congrArg some (insert_of_lt fun d hd => ?_)
      rw [Ordered, List.map_append, List.map_cons] at h
      exact (List.pairwise_append.mp h).2.2 d.1 (List.mem_map_of_mem hd) c.1 (by simp)
    rw [List.map_cons, List.foldlM_cons, hlast]
    have hrest : (cs.map fun c => (c.1, Json.string c.2)).foldlM insertPair (acc ++ [c]) =
        some (acc ++ [c] ++ cs) := ih (by simpa using h)
    rwa [List.append_assoc, List.singleton_append] at hrest

/-- Whatever is put in, the components stay in order. -/
lemma ordered_of_foldlM {pairs : List (String × Json)} {acc cs : List (String × String)}
    (hacc : Ordered acc) (h : pairs.foldlM insertPair acc = some cs) : Ordered cs := by
  induction pairs generalizing acc with
  | nil =>
    cases h
    exact hacc
  | cons p pairs ih =>
    rw [List.foldlM_cons] at h
    obtain ⟨acc', hp, hrest⟩ := Option.bind_eq_some_iff.mp h
    obtain ⟨level, -, hlevel⟩ := Option.bind_eq_some_iff.mp hp
    cases hlevel
    exact ih (ordered_insert hacc _ _) hrest

lemma ordered_of_json (j : Json) (cs : List (String × String))
    (h : componentsOfJson? j = some cs) : Ordered cs := by
  unfold componentsOfJson? at h
  split at h
  · exact ordered_of_foldlM ordered_nil h
  · cases h

lemma writablePairs_components (cs : List (String × String)) :
    WritablePairs .any (cs.map fun c => (c.1, .string c.2)) := by
  induction cs with
  | nil => trivial
  | cons c cs ih => exact ⟨trivial, ih⟩

lemma code : Code .any toJson ofJson? fun v => Ordered v.components where
  writable v _ := by
    have hcomponents := writablePairs_components v.components
    simpa [toJson, Writable, WritablePairs] using hcomponents
  read_write v hv := by
    have hcomponents : componentsOfJson? (.object (v.components.map fun c => (c.1, .string c.2))) =
        some v.components := foldlM_insertPair hv
    simp [toJson, ofJson?, members?, single?, valuesOf, orElse, string?, bool?, hcomponents]
  valid j v h := by
    obtain ⟨ms, -, h⟩ := Option.bind_eq_some_iff.mp h
    split at h
    · obtain ⟨level, -, h⟩ := Option.bind_eq_some_iff.mp h
      obtain ⟨components, hcomponents, h⟩ := Option.bind_eq_some_iff.mp h
      obtain ⟨json, -, h⟩ := Option.bind_eq_some_iff.mp h
      cases h
      exact valid_of_orElse ordered_nil ordered_of_json hcomponents
    · cases h

end LogFilter

/-! ### Everything -/

namespace Transaction

/-- What is written of a destination is a member by the name of `to`. -/
lemma to_mem_toJson (t : Transaction) : ∃ pairs, t.toJson = .object pairs ∧
    ("to" ∈ pairs.map Prod.fst ↔ t.destination.isSome = true) := by
  refine ⟨_, rfl, ?_⟩
  cases t.destination <;> simp

lemma single?_of_not_mem {pairs : List (String × Json)} {key : String}
    (h : key ∉ pairs.map Prod.fst) : single? pairs key = some none := by
  have hvalues : valuesOf pairs key = [] := by
    rw [valuesOf, List.map_eq_nil_iff, List.filter_eq_nil_iff]
    intro p hp heq
    exact h (List.mem_map.mpr ⟨p, hp, eq_of_beq heq⟩)
  rw [single?, hvalues]

/-- An object without such a member gives no destination. -/
lemma destination_of_not_mem {pairs : List (String × Json)} {t : Transaction}
    (hto : "to" ∉ pairs.map Prod.fst) (h : ofJson? (.object pairs) = some t) :
    t.destination = none := by
  obtain ⟨ms, hms, h⟩ := Option.bind_eq_some_iff.mp h
  have hmembers : ∃ kind input, ms = [kind, none, input] := by
    simp only [members?, List.mapM_cons, List.mapM_nil, single?_of_not_mem hto] at hms
    obtain ⟨kind, -, hms⟩ := Option.bind_eq_some_iff.mp hms
    cases hinput : single? pairs "input" with
    | none =>
      rw [hinput] at hms
      cases hms
    | some input =>
      rw [hinput] at hms
      cases hms
      exact ⟨kind, input, rfl⟩
  obtain ⟨kind, input, rfl⟩ := hmembers
  obtain ⟨_, -, h⟩ := Option.bind_eq_some_iff.mp h
  obtain ⟨destination, hnone, h⟩ := Option.bind_eq_some_iff.mp h
  obtain ⟨_, -, h⟩ := Option.bind_eq_some_iff.mp h
  cases h
  cases hnone
  rfl

end Transaction

/-- **Contexts and configurations survive JSON.** Transactions and receipts of any sort, ranges,
limits and settings with numbers that offsets take, and log filters with any texts, each name once
and in order, are read from the text that is written for them. Whatever text they are read from,
they are of that sort, so what is written for them is read as the same again. A destination is
written if and only if there is one, and an object that has none is read so. -/
theorem survives_json :
    Survives Transaction.toJson Transaction.ofString? (fun _ => True) ∧
    Survives Receipt.toJson Receipt.ofString? (fun _ => True) ∧
    Survives Span.toJson (readText .any Span.ofJson?)
      (fun s => s.offset < offsetBound ∧ s.size < offsetBound) ∧
    Survives Limits.toJson (readText .any Limits.ofJson?)
      (fun l => l.maxInflation < offsetBound) ∧
    Survives Settings.toJson (readText .any Settings.ofJson?)
      (fun s => s.limits.maxInflation < offsetBound) ∧
    Survives LogFilter.toJson (readText .any LogFilter.ofJson?)
      (fun f => LogFilter.Ordered f.components) ∧
    (∀ t : Transaction, ∃ pairs,
      ofShapedString? Transaction.shape t.toJson.render = some (.object pairs) ∧
        ("to" ∈ pairs.map Prod.fst ↔ t.destination.isSome = true)) ∧
    ∀ text pairs t, ofShapedString? Transaction.shape text = some (.object pairs) →
      "to" ∉ pairs.map Prod.fst → Transaction.ofString? text = some t → t.destination = none := by
  refine ⟨Transaction.code.survives, Receipt.code.survives, Span.code.survives,
    Limits.code.survives, Settings.code.survives, LogFilter.code.survives, fun t => ?_,
    fun text pairs t htext hto ht => ?_⟩
  · obtain ⟨pairs, hpairs, hto⟩ := t.to_mem_toJson
    exact ⟨pairs, by rw [ofShapedString?_render (Transaction.code.writable t trivial), hpairs], hto⟩
  · obtain ⟨j, hj, ht⟩ := Option.bind_eq_some_iff.mp ht
    cases htext.symm.trans hj
    exact Transaction.destination_of_not_mem hto ht

/-- A transaction that creates a contract. -/
def creation : Transaction := { kind := .dynamicFee, destination := none, input := [0xab] }

/-- A text of it, of which there are many. -/
def creationText : String := "\x7b\"input\": \"0XaB\", \"gas\": 21000, \"type\": 2\x7d"

/-- However it was written, it is written with no destination, and read so. -/
theorem creation_survives :
    Transaction.ofString? creationText = some creation ∧
    Transaction.ofString? creation.toJson.render = some creation ∧
    ∃ pairs, ofShapedString? Transaction.shape creation.toJson.render = some (.object pairs) ∧
      "to" ∉ pairs.map Prod.fst ∧ creation.destination = none := by
  have hread : Transaction.ofString? creationText = some creation := by decide +kernel
  obtain ⟨htransaction, -, -, -, -, -, hwritten, habsent⟩ := survives_json
  have hagain := htransaction.again _ _ hread
  obtain ⟨pairs, hpairs, hto⟩ := hwritten creation
  have hleft : "to" ∉ pairs.map Prod.fst := fun h => by cases hto.mp h
  exact ⟨hread, hagain, pairs, hpairs, hleft, habsent _ _ _ hpairs hleft hagain⟩

end AbiSpan
