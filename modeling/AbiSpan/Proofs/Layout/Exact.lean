import AbiSpan.Proofs.Layout.Walk

/-!
When `locate` finds a tree, and which buffers it accepts.

From the exactness of the walk: `locate` finds the one tree that is laid out in the buffer,
unless an array counts more elements than bytes are left, a number is too large for an offset, or
the tree costs more than the limits allow. Where no array has elements of no length, and the
buffer is no longer than an offset can reach, the numbers fit by themselves, so without a guard
nothing but the layout decides.
-/

namespace AbiSpan.Layout

open Reading Node

variable {b : Buffer} {ts : List AbiType} {ns : List Node} {p : Progress}

lemma row_exact (b : Buffer) (ts : List AbiType) : RowExact b ts :=
  rowExact fun t _ => (exact_of_type b t).1

/-- Nothing has been read yet. -/
lemma allows_start : b.Allows {} := ⟨Nat.zero_le _, fun h => Nat.not_lt_zero _ h.2⟩

/-- What a whole tree costs is within the limits. -/
def Affords (b : Buffer) (ns : List Node) : Prop :=
  ¬ b.limits.Exceeded b.size (min (costOf ns) maxOffset)

lemma allows_past_start (size : ℕ) (notices : List Notice) :
    b.Allows (({} : Progress).past size (costOf ns) notices) ↔ Affords b ns := by
  simp [Buffer.Allows, Affords, Progress.past, addCapped]

/-- What `locate` leaves behind when it has found a tree. -/
def found (b : Buffer) (ts : List AbiType) (ns : List Node) : Progress :=
  ({} : Progress).past (AbiType.rowSize ts) (costOf ns)
    (trailOf true ns ++ [.fieldsLocated ns.length b.size (min (costOf ns) maxOffset)])

/-- **`locate` is exact.** It ends with a tree if and only if the tree is laid out from the start
of the buffer, the numbers in it fit, and the limits afford it; and it then has counted what the
tree costs and reported the trail of the tree. -/
theorem locate_eq_ok_iff : locate b ts = (.ok ns, p) ↔
    Row b 0 ts 0 ns ∧ (∀ n ∈ ns, n.AllFit b.size) ∧ Affords b ns ∧ p = found b ts ns := by
  show Ends (fields b ts) {} ns p ↔ _
  simp only [fields, ends_bind, ends_get, ends_pure]
  refine ⟨?_, ?_⟩
  · intro h
    rcases h with ⟨_, _, hrec, _, _, ⟨rfl, rfl⟩, _, _, hn, rfl, rfl⟩
    obtain ⟨hr, hcs, rfl, hp⟩ := (row_exact b ts _ _ _ allows_start).mp hrec
    rw [ends_notify hp, Progress.past_past] at hn
    refine ⟨hr, hcs, (allows_past_start _ _).mp hp, ?_⟩
    rw [hn]
    simp [found, Progress.past, addCapped]
  · intro h
    rcases h with ⟨hr, hcs, hafford, rfl⟩
    have hp := (allows_past_start (AbiType.rowSize ts) (trailOf true ns)).mpr hafford
    refine ⟨ns, _, (row_exact b ts _ _ _ allows_start).mpr ⟨hr, hcs, rfl, hp⟩, _, _, ⟨rfl, rfl⟩,
      (), _, (ends_notify hp).mpr rfl, rfl, ?_⟩
    rw [Progress.past_past]
    simp [found, Progress.past, addCapped]

/-- Which tree `locate` finds, without the rest. -/
lemma locate_fst_eq_ok_iff : (locate b ts).1 = .ok ns ↔
    Row b 0 ts 0 ns ∧ (∀ n ∈ ns, n.AllFit b.size) ∧ Affords b ns := by
  refine ⟨?_, ?_⟩
  · intro h
    obtain ⟨hr, hcs, hafford, -⟩ := locate_eq_ok_iff.mp (Prod.ext h rfl)
    exact ⟨hr, hcs, hafford⟩
  · intro h
    rcases h with ⟨hr, hcs, hafford⟩
    rw [locate_eq_ok_iff.mpr ⟨hr, hcs, hafford, rfl⟩]

/-! ### What passes in one buffer and another -/

lemma allFit_mono {size size' : ℕ} (h : size ≤ size') {n : Node} (hn : n.AllFit size) :
    n.AllFit size' := fun m hm =>
  { payload := (hn m hm).payload
    count := fun t ht => ((hn m hm).count t ht).trans h
    elements := (hn m hm).elements }

/-- What is found in one buffer is found in another, if all that can be read there can be read here
and the guard is no stricter. -/
lemma locate_mono {b' : Buffer} (hreads : b.ReadsIn b')
    (hguard : ∀ total, b'.limits.Exceeded b'.size total → b.limits.Exceeded b.size total)
    (h : (locate b ts).1 = .ok ns) : (locate b' ts).1 = .ok ns := by
  obtain ⟨hrow, hfit, hafford⟩ := locate_fst_eq_ok_iff.mp h
  exact locate_fst_eq_ok_iff.mpr ⟨hrow.readsIn hreads,
    fun n hn => allFit_mono hreads.size_le (hfit n hn), fun hover => hafford (hguard _ hover)⟩

/-! ### Without a guard -/

lemma affords_of_no_guard (h : b.limits.maxInflation = 0) : Affords b ns :=
  fun hex => by
    rw [Limits.Exceeded, h] at hex
    exact Nat.lt_irrefl 0 hex.1

/-- A tree that costs no more than the buffer is long is within any limits. -/
lemma affords_of_cost_le (h : costOf ns ≤ b.size) : Affords b ns := by
  intro h
  rcases h with ⟨hpos, hlt⟩
  have hle := Nat.le_mul_of_pos_left b.size hpos
  unfold mulCapped at hlt
  omega

/-- **The walk accepts the well laid out buffers and no others.** Without a guard, and with no
array of elements of no length among the types, `locate` finds a tree if and only if the tree is
laid out in the buffer; there is at most one such tree, and where there is none `locate` ends
with a fault. (Offsets are 64 bits wide, so no buffer in memory is longer than they reach.) -/
theorem locate_accepts (hb : b.size < offsetBound) (hguard : b.limits.maxInflation = 0)
    (hts : ∀ t ∈ ts, t.elemsTakeRoom = true) :
    (∀ tree, (locate b ts).1 = .ok tree ↔ Row b 0 ts 0 tree) ∧
      (∀ tree tree', Row b 0 ts 0 tree → Row b 0 ts 0 tree' → tree = tree') ∧
      ((¬ ∃ tree, Row b 0 ts 0 tree) → ∃ fault, (locate b ts).1 = .error fault) := by
  have hiff : ∀ tree, (locate b ts).1 = .ok tree ↔ Row b 0 ts 0 tree := fun tree => by
    rw [locate_fst_eq_ok_iff]
    refine ⟨fun h => h.1, fun h => ⟨h, h.allFit hb hts (Nat.zero_le _), affords_of_no_guard hguard⟩⟩
  refine ⟨hiff, fun tree tree' h h' => ?_, fun hnone => ?_⟩
  · have heq := ((hiff tree).mpr h).symm.trans ((hiff tree').mpr h')
    cases heq
    rfl
  · cases hl : (locate b ts).1 with
    | error fault => exact ⟨fault, rfl⟩
    | ok tree => exact (hnone ⟨tree, (hiff tree).mp hl⟩).elim

/-- A buffer in which two pointers lead to the same byte string. -/
def sharedTail : Buffer where
  bytes := (List.replicate 31 0 ++ [64]) ++ (List.replicate 31 0 ++ [64]) ++
    (List.replicate 31 0 ++ [1]) ++ (7 :: List.replicate 31 0)
  limits := { maxInflation := 0 }

lemma sharedTail_size : sharedTail.size < offsetBound := by
  simp [sharedTail, Buffer.size, offsetBound]

lemma sharedTail_row :
    Row sharedTail 0 [.bytes, .bytes] 0 [.ofPayload .bytes 96 [7], .ofPayload .bytes 96 [7]] := by
  have hpointer : ∀ pos ∈ [0, 32], sharedTail.bytes.IndexAt pos 64 := fun pos hpos =>
    ⟨List.replicate 31 0 ++ [64], by revert pos; decide +kernel, by decide +kernel, by decide⟩
  have hlength : sharedTail.bytes.IndexAt 64 1 :=
    ⟨List.replicate 31 0 ++ [1], by decide +kernel, by decide +kernel, by decide⟩
  have htail : Tail sharedTail .bytes (0 + 64) (.ofPayload .bytes 96 [7]) :=
    .payload rfl hlength (by unfold Buffer.HasRoom; decide +kernel) (by decide +kernel)
  have hslot : ∀ pos ∈ [0, 32], Slot sharedTail 0 .bytes pos (.ofPayload .bytes 96 [7]) :=
    fun pos hpos => .pointer rfl (hpointer pos hpos) (by decide +kernel) htail
  exact .cons (hslot 0 (by decide)) (.cons (hslot 32 (by decide)) .nil)

/-- No encoder writes `sharedTail`, and it is accepted for what it is. -/
theorem sharedTail_accepted :
    sharedTail.size < offsetBound ∧ sharedTail.limits.maxInflation = 0 ∧
      (∀ t ∈ [AbiType.bytes, .bytes], t.elemsTakeRoom = true) ∧
      (locate sharedTail [.bytes, .bytes]).1 =
        .ok [.ofPayload .bytes 96 [7], .ofPayload .bytes 96 [7]] := by
  have hts : ∀ t ∈ [AbiType.bytes, .bytes], t.elemsTakeRoom = true := by decide
  refine ⟨sharedTail_size, rfl, hts, ?_⟩
  exact ((locate_accepts sharedTail_size rfl hts).1 _).mpr sharedTail_row

end AbiSpan.Layout
