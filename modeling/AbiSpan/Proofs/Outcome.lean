import AbiSpan.View
import Mathlib.Tactic

/-!
How a computation with state and faults ends, as a relation.

`Ends x s a s'` says that `x`, begun in state `s`, ends with `a` in state `s'`. Each way to build
a computation has one lemma that says when the whole ends so; a proof about a reader rewrites
with these and never opens the monad.
-/

namespace AbiSpan

variable {ε σ α β : Type}

/-- What a computation begun in `s` comes to, and the state it leaves. -/
def outcome (x : ExceptT ε (StateM σ) α) (s : σ) : Except ε α × σ := x.run.run s

/-- Begun in `s`, the computation ends with `a` in `s'`. -/
def Ends (x : ExceptT ε (StateM σ) α) (s : σ) (a : α) (s' : σ) : Prop := outcome x s = (.ok a, s')

lemma Ends.unique {x : ExceptT ε (StateM σ) α} {s : σ} {a b : α} {s' s'' : σ}
    (h : Ends x s a s') (h' : Ends x s b s'') : a = b ∧ s' = s'' := by
  have heq : ((.ok a, s') : Except ε α × σ) = (.ok b, s'') := h.symm.trans h'
  simpa using heq

lemma outcome_bind (x : ExceptT ε (StateM σ) α) (f : α → ExceptT ε (StateM σ) β) (s : σ) :
    outcome (x >>= f) s =
      match outcome x s with
      | (.ok a, s') => outcome (f a) s'
      | (.error e, s') => (.error e, s') := by
  show (ExceptT.bind x f).run.run s = _
  simp only [outcome, ExceptT.bind, ExceptT.run, ExceptT.mk, StateT.run, bind, StateT.bind]
  rcases x s with ⟨_ | _, _⟩ <;> rfl

lemma outcome_bind_ok {x : ExceptT ε (StateM σ) α} {f : α → ExceptT ε (StateM σ) β} {s s' : σ}
    {a : α} (h : outcome x s = (.ok a, s')) : outcome (x >>= f) s = outcome (f a) s' := by
  rw [outcome_bind, h]

lemma outcome_bind_error {x : ExceptT ε (StateM σ) α} {f : α → ExceptT ε (StateM σ) β}
    {s s' : σ} {e : ε} (h : outcome x s = (.error e, s')) :
    outcome (x >>= f) s = (.error e, s') := by
  rw [outcome_bind, h]

lemma outcome_map (f : α → β) (x : ExceptT ε (StateM σ) α) (s : σ) :
    outcome (f <$> x) s = ((outcome x s).1.map f, (outcome x s).2) := by
  rw [map_eq_pure_bind, outcome_bind]
  rcases outcome x s with ⟨_ | _, _⟩ <;> rfl

@[simp] lemma ends_pure {s : σ} {a b : α} {s' : σ} :
    Ends (pure a : ExceptT ε (StateM σ) α) s b s' ↔ a = b ∧ s = s' := by
  show ((.ok a, s) : Except ε α × σ) = (.ok b, s') ↔ _
  simp

@[simp] lemma ends_throw {s : σ} {e : ε} {b : α} {s' : σ} :
    ¬ Ends (throw e : ExceptT ε (StateM σ) α) s b s' := by
  show ¬ ((.error e, s) : Except ε α × σ) = (.ok b, s')
  simp

@[simp] lemma ends_bind {x : ExceptT ε (StateM σ) α} {f : α → ExceptT ε (StateM σ) β}
    {s : σ} {b : β} {s'' : σ} :
    Ends (x >>= f) s b s'' ↔ ∃ a s', Ends x s a s' ∧ Ends (f a) s' b s'' := by
  unfold Ends
  rw [outcome_bind]
  rcases outcome x s with ⟨e | a, s1⟩
  · simp
  · simp [and_assoc]

@[simp] lemma ends_get {s : σ} {a s' : σ} :
    Ends (get : ExceptT ε (StateM σ) σ) s a s' ↔ s = a ∧ s = s' := by
  show ((.ok s, s) : Except ε σ × σ) = (.ok a, s') ↔ _
  simp

@[simp] lemma ends_modify {f : σ → σ} {s : σ} {a : PUnit} {s' : σ} :
    Ends (modify f : ExceptT ε (StateM σ) PUnit) s a s' ↔ f s = s' := by
  show ((.ok PUnit.unit, f s) : Except ε PUnit × σ) = (.ok a, s') ↔ _
  simp

@[simp] lemma ends_ofExcept {x : Except ε α} {s : σ} {a : α} {s' : σ} :
    Ends (MonadExcept.ofExcept x : ExceptT ε (StateM σ) α) s a s' ↔ x = .ok a ∧ s = s' := by
  cases x with
  | error e => simp [MonadExcept.ofExcept]
  | ok b => simp [MonadExcept.ofExcept]

@[simp] lemma ends_ite {c : Prop} [Decidable c] {x y : ExceptT ε (StateM σ) α} {s : σ} {a : α}
    {s' : σ} : Ends (if c then x else y) s a s' ↔ c ∧ Ends x s a s' ∨ ¬ c ∧ Ends y s a s' := by
  split <;> simp [*]

lemma eq_ok_of_toOption {ε α : Type} {x : Except ε α} {a : α} (h : x.toOption = some a) :
    x = .ok a := by
  cases x with
  | error e => cases h
  | ok b =>
    cases h
    rfl

lemma ends_of_toOption {x : ExceptT ε (StateM σ) α} {s : σ} {a : α}
    (h : (outcome x s).1.toOption = some a) : Ends x s a (outcome x s).2 :=
  Prod.ext (eq_ok_of_toOption h) rfl

/-! ### However it ends -/

/-- However the computation ends that is begun in `s`, with a value or a fault, `post` holds of
the end and of the state it leaves. -/
def Always (x : ExceptT ε (StateM σ) α) (s : σ) (post : Except ε α → σ → Prop) : Prop :=
  post (outcome x s).1 (outcome x s).2

section Always

variable {s : σ} {a : α} {post : Except ε α → σ → Prop}

lemma Always.mono {x : ExceptT ε (StateM σ) α} {post' : Except ε α → σ → Prop}
    (h : Always x s post) (himp : ∀ r s', post r s' → post' r s') : Always x s post' :=
  himp _ _ h

/-- The end and the state are those that the computation comes to. -/
lemma Always.with_outcome {x : ExceptT ε (StateM σ) α} (h : Always x s post) :
    Always x s fun r s' => outcome x s = (r, s') ∧ post r s' := ⟨rfl, h⟩

lemma always_iff_of_outcome {x : ExceptT ε (StateM σ) α} {r : Except ε α} {s' : σ}
    (h : outcome x s = (r, s')) : Always x s post ↔ post r s' := by
  rw [Always, h]

@[simp] lemma always_pure : Always (pure a) s post ↔ post (.ok a) s := Iff.rfl

@[simp] lemma always_throw {e : ε} :
    Always (throw e : ExceptT ε (StateM σ) α) s post ↔ post (.error e) s := Iff.rfl

@[simp] lemma always_get {post : Except ε σ → σ → Prop} :
    Always get s post ↔ post (.ok s) s := Iff.rfl

@[simp] lemma always_modify {f : σ → σ} {post : Except ε PUnit → σ → Prop} :
    Always (modify f) s post ↔ post (.ok ()) (f s) := Iff.rfl

@[simp] lemma always_ofExcept {x : Except ε α} :
    Always (MonadExcept.ofExcept x) s post ↔ post x s := by
  cases x <;> rfl

lemma always_bind {x : ExceptT ε (StateM σ) α} {f : α → ExceptT ε (StateM σ) β}
    {post : Except ε β → σ → Prop} : Always (x >>= f) s post ↔
      Always x s fun r s' =>
        match r with
        | .ok a => Always (f a) s' post
        | .error e => post (.error e) s' := by
  unfold Always
  rw [outcome_bind]
  rcases outcome x s with ⟨_ | _, _⟩ <;> rfl

end Always

/-! ### What is kept -/

/-- However the computation ends, an invariant of the state that held before holds after. -/
def Preserves (x : ExceptT ε (StateM σ) α) (inv : σ → Prop) : Prop :=
  ∀ s, inv s → Always x s fun _ s' => inv s'

section Preserves

variable {inv : σ → Prop}

lemma preserves_pure (a : α) : Preserves (pure a : ExceptT ε (StateM σ) α) inv := fun _ h => h

lemma preserves_throw (e : ε) : Preserves (throw e : ExceptT ε (StateM σ) α) inv := fun _ h => h

lemma preserves_get : Preserves (get : ExceptT ε (StateM σ) σ) inv := fun _ h => h

lemma preserves_modify {f : σ → σ} (h : ∀ s, inv s → inv (f s)) :
    Preserves (modify f : ExceptT ε (StateM σ) PUnit) inv := h

lemma preserves_ofExcept (x : Except ε α) :
    Preserves (MonadExcept.ofExcept x : ExceptT ε (StateM σ) α) inv := fun s h => by
  rwa [always_ofExcept]

lemma preserves_ite {c : Prop} [Decidable c] {x y : ExceptT ε (StateM σ) α} (hx : Preserves x inv)
    (hy : Preserves y inv) : Preserves (if c then x else y) inv := by
  split
  · exact hx
  · exact hy

lemma Preserves.bind {x : ExceptT ε (StateM σ) α} {f : α → ExceptT ε (StateM σ) β}
    (hx : Preserves x inv) (hf : ∀ a, Preserves (f a) inv) : Preserves (x >>= f) inv := by
  intro s h
  rw [always_bind]
  refine (hx s h).mono fun r s' h' => ?_
  cases r with
  | error e => exact h'
  | ok a => exact hf a s' h'

end Preserves

end AbiSpan
