import AbiSpan.Proofs.Layout.Exact
import AbiSpan.Proofs.Layout.Parallel

/-!
The guard against reading too much.

A guarded read does just what the unguarded one does, until it has counted too much and stops. So
does the whole walk, since two walks go alike as far as their reads do; and what the walk has
counted in the end is the cost of the tree. So the guard decides by the cost of the finished tree
alone, although it is asked at every read.
-/

namespace AbiSpan

/-- The same buffer under another guard. -/
def Buffer.guarded (b : Buffer) (factor : Nat) : Buffer :=
  { b with limits := { b.limits with maxInflation := factor } }

@[simp] lemma Buffer.size_guarded (b : Buffer) (factor : ℕ) : (b.guarded factor).size = b.size :=
  rfl

/-- Without a guard nothing is too much. -/
lemma Buffer.not_exceeded_guarded_zero (b : Buffer) (size total : ℕ) :
    ¬ (b.guarded 0).limits.Exceeded size total :=
  fun h => Nat.lt_irrefl 0 h.1

namespace Reading

variable {b : Buffer} {factor : ℕ}

/-- The guard has stopped a reading. -/
def Stops (b : Buffer) (factor : Nat) (fault : ReadFault) : Prop :=
  ∃ total, fault = .inflated total b.size factor

lemma guarded_charge (size : ℕ) : Unless (Stops b factor) Eq (charge (b.guarded factor) size)
    (charge (b.guarded 0) size) := by
  refine (unless_refl _).bind fun p _ hp => ?_
  subst hp
  refine (unless_refl _).bind fun _ _ _ => ?_
  rw [if_neg (Buffer.not_exceeded_guarded_zero b _ _)]
  by_cases hover : (b.guarded factor).limits.Exceeded (b.guarded factor).size
      (addCapped p.bytesRead size)
  · rw [if_pos hover]
    exact fun p' => .inr ⟨_, p', rfl, .inl ⟨_, rfl⟩⟩
  · rw [if_neg hover]
    exact unless_refl _

/-- A guarded read does what the unguarded one does, unless the guard stops it. -/
lemma guarded_bytes (size : ℕ) (unpadded : Bool) : Unless (Stops b factor) Eq
    (bytes (b.guarded factor) size unpadded) (bytes (b.guarded 0) size unpadded) := by
  refine (unless_refl _).bind fun v _ hv => ?_
  subst hv
  refine (unless_refl _).bind fun stop _ hstop => ?_
  subst hstop
  exact (guarded_charge size).bind fun _ _ _ => unless_refl _

end Reading

namespace Layout

open Reading Node

variable {b : Buffer} {factor : ℕ} {t : AbiType} {ts : List AbiType} {ns : List Node}

/-- A guarded walk finds what the unguarded one finds, unless the guard stops it. -/
lemma locate_guarded_eq_or (b : Buffer) (ts : List AbiType) (factor : ℕ) :
    locate (b.guarded factor) ts = locate (b.guarded 0) ts ∨
      ∃ total, (locate (b.guarded factor) ts).1 = .error (.inflated total b.size factor) := by
  have hsize : (b.guarded factor).size = (b.guarded 0).size := rfl
  rcases locate_eq_or hsize guarded_bytes ts with heq | ⟨fault, ⟨total, rfl⟩, hstop⟩
  · exact .inl heq
  · exact .inr ⟨total, hstop⟩

/-! ### What the guard decides -/

lemma readsIn_guarded (b : Buffer) (factor factor' : ℕ) :
    (b.guarded factor).ReadsIn (b.guarded factor') := ⟨id, id⟩

lemma affords_guarded_iff : Affords (b.guarded factor) ns ↔
    factor = 0 ∨ min (costOf ns) maxOffset ≤ min (factor * b.size) maxOffset := by
  unfold Affords Limits.Exceeded mulCapped
  simp only [Buffer.size_guarded]
  show ¬ (0 < factor ∧ min (factor * b.size) maxOffset < min (costOf ns) maxOffset) ↔ _
  omega

/-- The guard lets a tree pass that the unguarded walk finds if it affords the tree, and no
other. -/
lemma locate_guarded_eq_ok_iff : (locate (b.guarded factor) ts).1 = .ok ns ↔
    (locate (b.guarded 0) ts).1 = .ok ns ∧ Affords (b.guarded factor) ns := by
  simp only [locate_fst_eq_ok_iff, Buffer.size_guarded]
  constructor
  · intro h
    rcases h with ⟨hr, hfit, hafford⟩
    exact ⟨⟨hr.readsIn (readsIn_guarded b _ _), hfit, affords_of_no_guard rfl⟩, hafford⟩
  · intro h
    rcases h with ⟨⟨hr, hfit, -⟩, hafford⟩
    exact ⟨hr.readsIn (readsIn_guarded b _ _), hfit, hafford⟩

/-- **The guard is exact.** A guarded walk finds the tree that the unguarded one finds, if the
tree does not cost more than the guard allows; it then reports what the tree costs. Where the tree
costs more, the fault is that too much has been read, and where the unguarded walk is at fault, the
guarded one ends with that fault or for having read too much. So a laxer guard lets more pass, and
however its pointers are shared, no tree that passes costs more than so many times the buffer.
(The walk counts no further than offsets reach, so a cost and a limit are compared only so far;
the last part is for the costs and limits within.) -/
theorem locate_guarded (b : Buffer) (ts : List AbiType) (factor : ℕ) :
    (∀ ns, (locate (b.guarded factor) ts).1 = .ok ns ↔
      (locate (b.guarded 0) ts).1 = .ok ns ∧
        (factor = 0 ∨ min (costOf ns) maxOffset ≤ min (factor * b.size) maxOffset)) ∧
    (∀ ns, (locate (b.guarded factor) ts).1 = .ok ns →
      (locate (b.guarded factor) ts).2.bytesRead = min (costOf ns) maxOffset ∧
        (locate (b.guarded factor) ts).2.notices.back? =
          some (.fieldsLocated ns.length b.size (min (costOf ns) maxOffset))) ∧
    (∀ ns, (locate (b.guarded 0) ts).1 = .ok ns →
      ¬ (factor = 0 ∨ min (costOf ns) maxOffset ≤ min (factor * b.size) maxOffset) →
        ∃ total, (locate (b.guarded factor) ts).1 = .error (.inflated total b.size factor)) ∧
    (∀ fault, (locate (b.guarded 0) ts).1 = .error fault →
      (locate (b.guarded factor) ts).1 = .error fault ∨
        ∃ total, (locate (b.guarded factor) ts).1 = .error (.inflated total b.size factor)) ∧
    (∀ ns, (locate (b.guarded factor) ts).1 = .ok ns → ∀ factor', 0 < factor →
      factor ≤ factor' ∨ factor' = 0 → (locate (b.guarded factor') ts).1 = .ok ns) ∧
    (∀ ns, (locate (b.guarded factor) ts).1 = .ok ns → 0 < factor →
      costOf ns ≤ maxOffset ∨ factor * b.size < maxOffset → costOf ns ≤ factor * b.size) := by
  have hiff (factor : ℕ) (ns : List Node) : (locate (b.guarded factor) ts).1 = .ok ns ↔
      (locate (b.guarded 0) ts).1 = .ok ns ∧
        (factor = 0 ∨ min (costOf ns) maxOffset ≤ min (factor * b.size) maxOffset) := by
    rw [locate_guarded_eq_ok_iff, affords_guarded_iff]
  refine ⟨hiff factor, fun ns h => ?_, fun ns hfree hover => ?_, fun fault hfree => ?_,
    fun ns h factor' hpos hle => ?_, fun ns h hpos hcap => ?_⟩
  · have hp : (locate (b.guarded factor) ts).2 = found (b.guarded factor) ts ns :=
      (locate_eq_ok_iff.mp (Prod.ext h rfl)).2.2.2
    rw [hp]
    simp [found, Progress.past, addCapped]
  · rcases locate_guarded_eq_or b ts factor with heq | hstop
    · rw [← heq] at hfree
      exact absurd ((hiff factor ns).mp hfree).2 hover
    · exact hstop
  · rcases locate_guarded_eq_or b ts factor with heq | hstop
    · rw [heq]
      exact .inl hfree
    · exact .inr hstop
  · obtain ⟨hfree, hafford⟩ := (hiff factor ns).mp h
    refine (hiff factor' ns).mpr ⟨hfree, ?_⟩
    rcases hle with hle | rfl
    · have hmul : factor * b.size ≤ factor' * b.size := Nat.mul_le_mul_right _ hle
      omega
    · exact .inl rfl
  · obtain ⟨-, hafford⟩ := (hiff factor ns).mp h
    omega

/-- Two pointers to one byte string are too much for a guard that lets the buffer be read once,
and not for one that lets it be read twice. -/
theorem sharedTail_guarded :
    (∃ total, (locate (sharedTail.guarded 1) [.bytes, .bytes]).1 =
      .error (.inflated total sharedTail.size 1)) ∧
    (locate (sharedTail.guarded 2) [.bytes, .bytes]).1 =
      .ok [.ofPayload .bytes 96 [7], .ofPayload .bytes 96 [7]] := by
  have hfit := sharedTail_row.allFit sharedTail_size (by decide) (Nat.zero_le _)
  have hfree := locate_fst_eq_ok_iff.mpr ⟨sharedTail_row, hfit, affords_of_no_guard rfl⟩
  exact ⟨(locate_guarded sharedTail [.bytes, .bytes] 1).2.2.1 _ hfree (by decide +kernel),
    ((locate_guarded sharedTail [.bytes, .bytes] 2).1 _).mpr ⟨hfree, .inr (by decide +kernel)⟩⟩

end Layout

end AbiSpan
