import AbiSpan.Proofs.Layout.Parallel

/-!
What holds of a walk however it ends.

A walk reports two sorts of notices, pointers followed and arrays located, and the only type that
it ever refuses is the function type: the other arms that refuse are for types that do not come
there. So what these notices cannot break holds of all that a walk has reported, also where it
fails; and a fault is one of reading, unless the function type occurs.
-/

namespace AbiSpan

namespace Reading

variable {inv : Array Notice → Prop} {good : ReadFault → Prop} {α β γ δ : Type}
  {R : α → β → Prop} {b : Buffer}

/-- Begun where `inv` holds of the notices, the reading ends where it holds of them, with a value
that `R` relates to another or with a good fault. -/
def Keeps (inv : Array Notice → Prop) (good : ReadFault → Prop) {α β : Type} (R : α → β → Prop)
    (x : Reading α) : Prop :=
  ∀ p, inv p.notices → Always x p fun r p' =>
    inv p'.notices ∧ match r with
      | .ok a => ∃ b, R a b
      | .error fault => good fault

lemma keeps_pure {a : α} {b : β} (h : R a b) : Keeps inv good R (pure a) :=
  fun _ hp => ⟨hp, b, h⟩

lemma keeps_throw {fault : ReadFault} (h : good fault) : Keeps inv good R (throw fault) :=
  fun _ hp => ⟨hp, h⟩

lemma Keeps.bind {S : γ → δ → Prop} {x : Reading α} {f : α → Reading γ} (h : Keeps inv good R x)
    (hf : ∀ a b, R a b → Keeps inv good S (f a)) : Keeps inv good S (x >>= f) := by
  intro p hp
  rw [always_bind]
  refine (h p hp).mono fun r p' hr => ?_
  obtain ⟨hp', hr⟩ := hr
  cases r with
  | error fault => exact ⟨hp', hr⟩
  | ok a =>
    obtain ⟨b, hab⟩ := hr
    exact hf a b hab p' hp'

/-- Every value is related to itself. -/
lemma keeps_ofExcept {x : Except ReadFault α} (h : ∀ fault, x = .error fault → good fault) :
    Keeps inv good Eq (MonadExcept.ofExcept x) := by
  intro p hp
  rw [always_ofExcept]
  cases x with
  | error fault => exact ⟨hp, h fault rfl⟩
  | ok a => exact ⟨hp, a, rfl⟩

lemma keeps_check {c : Prop} [Decidable c] {a : α} {fault : ReadFault} (h : good fault) :
    Keeps inv good Eq (if c then pure a else throw fault) := by
  split
  · exact keeps_pure rfl
  · exact keeps_throw h

lemma keeps_get : Keeps inv good Eq (get : Reading Progress) := fun p hp => ⟨hp, p, rfl⟩

lemma keeps_modify {f : Progress → Progress} (h : ∀ p, inv p.notices → inv (f p).notices) :
    Keeps inv good Eq (modify f : Reading Unit) := fun p hp => ⟨h p hp, (), rfl⟩

lemma keeps_view : Keeps inv good Eq view := fun p hp => ⟨hp, p.view, rfl⟩

lemma keeps_setView (v : View) : Keeps inv good Eq (setView v) := keeps_modify fun _ hp => hp

lemma keeps_notify {n : Notice} (h : ∀ ns, inv ns → inv (ns.push n)) :
    Keeps inv good Eq (notify n) := keeps_modify fun p hp => h p.notices hp

/-- Faults of reading, of whatever sort, are good. -/
def ReadsGood (good : ReadFault → Prop) : Prop :=
  ∀ fault, (∀ type, fault ≠ .unsupportedType type) → good fault

lemma readsGood_true : ReadsGood fun _ => True := fun _ _ => trivial

lemma keeps_charge (hgood : ReadsGood good) (size : ℕ) : Keeps inv good Eq (charge b size) := by
  refine keeps_get.bind fun p _ _ => Keeps.bind (keeps_modify fun _ hp => hp) fun _ _ _ => ?_
  split
  · exact keeps_throw (hgood _ (by simp))
  · exact keeps_pure rfl

lemma keeps_bytes (hgood : ReadsGood good) (size : ℕ) (unpadded : Bool) :
    Keeps inv good Eq (bytes b size unpadded) := by
  refine keeps_view.bind fun v _ _ => (keeps_ofExcept fun fault h => ?_).bind fun stop _ _ =>
    (keeps_charge hgood size).bind fun _ _ _ => (keeps_setView _).bind fun _ _ _ => keeps_pure rfl
  refine hgood fault fun type htype => ?_
  subst htype
  unfold View.readEnd at h
  split at h
  · cases h
  · split at h
    · cases h
    · split at h <;> cases h

lemma keeps_index (hgood : ReadsGood good) : Keeps inv good Eq (index b) :=
  keeps_view.bind fun _ _ _ => (keeps_bytes hgood wordSize false).bind fun _ _ _ =>
    keeps_check (hgood _ (by simp))

lemma keeps_pointer (hgood : ReadsGood good) : Keeps inv good Eq (pointer b) :=
  keeps_view.bind fun _ _ _ => (keeps_index hgood).bind fun _ _ _ =>
    keeps_check (hgood _ (by simp))

lemma keeps_within {v : View} {x : Reading α} (h : Keeps inv good R x) :
    Keeps inv good R (within v x) :=
  keeps_view.bind fun _ _ _ => (keeps_setView v).bind fun _ _ _ => h.bind fun _ _ hab =>
    (keeps_setView _).bind fun _ _ _ => keeps_pure hab

end Reading

namespace Layout

open Reading

variable {inv : Array Notice → Prop} {good : ReadFault → Prop} {b : Buffer} {ts : List AbiType}

lemma keeps_heads (hgood : ReadsGood good) : Keeps inv good Eq (Reader.ofBuffer b).heads := by
  rw [Reader.heads_ofBuffer]
  refine keeps_view.bind fun v _ _ => keeps_ofExcept fun fault h => hgood fault fun type ht => ?_
  subst ht
  unfold View.openAhead View.openAt at h
  split at h
  · split at h <;> cases h
  · cases h

lemma keeps_word (hgood : ReadsGood good) (t : AbiType) :
    Keeps inv good Eq ((Reader.ofBuffer b).word t) :=
  keeps_view.bind fun _ _ _ => (keeps_bytes hgood _ _).bind fun _ _ _ => keeps_pure rfl

lemma keeps_count (hgood : ReadsGood good) : Keeps inv good Eq (count b) :=
  keeps_view.bind fun _ _ _ => (keeps_index hgood).bind fun _ _ _ => keeps_view.bind fun _ _ _ =>
    keeps_check (hgood _ (by simp))

lemma keeps_payload (hgood : ReadsGood good) (t : AbiType) : Keeps inv good Eq (payload b t) :=
  (keeps_index hgood).bind fun _ _ _ => keeps_view.bind fun _ _ _ =>
    (keeps_bytes hgood _ true).bind fun _ _ _ => keeps_pure rfl

/-- The notices of a walk do not break what is asked of notices. -/
structure Withstands (inv : Array Notice → Prop) : Prop where
  followed : ∀ ns type tail, inv ns → inv (ns.push (.followed type tail))
  located : ∀ ns type offset count, inv ns → inv (ns.push (.arrayLocated type offset count))

/-- A walk keeps what its notices do not break. -/
lemma paired_keeps (hinv : Withstands inv) (hgood : ReadsGood good) (b : Buffer) :
    (Reader.ofBuffer b).Paired 0 (Reader.ofBuffer b) (fun R x _ => Keeps inv good R x) Eq Eq where
  pure := keeps_pure
  bind := .bind
  base_eq hv := congrArg View.base hv.symm
  position_eq hv := congrArg View.position hv.symm
  view := keeps_view
  within _ h := keeps_within h
  heads := keeps_heads hgood
  pointer := keeps_pointer hgood
  count := keeps_count hgood
  word := keeps_word hgood
  payload t _ _ _ := keeps_within (keeps_payload hgood t)
  followed type tail := keeps_notify fun ns h => hinv.followed ns type tail h
  located type offset count := keeps_notify fun ns h => hinv.located ns type offset count h
  compound _ _ _ _ _ hns := by
    rw [List.forall₂_eq_eq_eq] at hns
    rw [hns]
    rfl

/-- **What every walk keeps.** The notices of a row are of two sorts, and its faults are those of
reading and the refusal of the function type, if that occurs. -/
theorem record_keeps (hinv : Withstands inv) (hgood : ReadsGood good)
    (hrefuse : AbiType.anyUsesFunction ts = true → good (.unsupportedType AbiType.function.name)) :
    Keeps inv good (List.Forall₂ Eq) (record b ts) := by
  rw [← Reader.record_ofBuffer]
  exact (paired_keeps hinv hgood b).record ts fun h => keeps_throw (hrefuse h)

/-- Only a row can fail; the closing report cannot. -/
lemma locate_eq_error_iff {fault : ReadFault} {p : Progress} :
    locate b ts = (.error fault, p) ↔ outcome (record b ts) {} = (.error fault, p) := by
  show outcome (fields b ts) {} = _ ↔ _
  unfold fields
  rw [outcome_bind]
  rcases outcome (record b ts) {} with ⟨_ | nodes, q⟩
  · rfl
  · have hclosed : outcome (do
        notify (.fieldsLocated nodes.length b.size (← get).bytesRead)
        return nodes) q = (.ok nodes, { q with
          notices := q.notices.push (.fieldsLocated nodes.length b.size q.bytesRead) }) := rfl
    simp only [hclosed]
    simp

/-- So where a walk fails, it has kept what its notices do not break, and its fault is good. -/
lemma locate_keeps (hinv : Withstands inv) (hstart : inv #[]) (hgood : ReadsGood good)
    (hrefuse : AbiType.anyUsesFunction ts = true → good (.unsupportedType AbiType.function.name))
    {fault : ReadFault} (h : (locate b ts).1 = .error fault) :
    inv (locate b ts).2.notices ∧ good fault := by
  have hends := record_keeps (b := b) hinv hgood hrefuse {} hstart
  rwa [always_iff_of_outcome (locate_eq_error_iff.mp (Prod.ext h rfl))] at hends

end Layout

end AbiSpan
