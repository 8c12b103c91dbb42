import AbiSpan.Proofs.Desk.Step

/-!
Courses of actions at a desk.

The number of a view says when it was opened, and so it depends on how the views take turns. Its
descent does not: it says by which action of which view the view was opened. A course keeps both,
and what came of each action under the descent of its view, so that two courses can be compared
view by view.
-/

namespace AbiSpan

/-! ### Lists under keys -/

lemma prefix_getElem? {α : Type} {l l' : List α} {k : ℕ} {x : α} (h : l <+: l')
    (hx : l[k]? = some x) : l'[k]? = some x := by
  obtain ⟨hk, rfl⟩ := List.getElem?_eq_some_iff.mp hx
  exact List.prefix_iff_getElem?.mp h k hk

section Under

variable {κ β γ : Type} [DecidableEq κ] {l l' : List (κ × β)} {k : κ}

/-- The values under a key, in their order. -/
def under (l : List (κ × β)) (k : κ) : List β := (l.filter (·.1 = k)).map Prod.snd

lemma under_snoc (l : List (κ × β)) (e : κ × β) (k : κ) :
    under (l ++ [e]) k = under l k ++ if e.1 = k then [e.2] else [] := by
  by_cases h : e.1 = k <;> simp [under, h]

lemma under_map (f : β → γ) (l : List (κ × β)) (k : κ) :
    under (l.map fun e => (e.1, f e.2)) k = (under l k).map f := by
  simp [under, List.filter_map, Function.comp_def]

lemma prefix_under (h : l <+: l') (k : κ) : under l k <+: under l' k := (h.filter _).map _

lemma mem_under {x : β} : x ∈ under l k ↔ (k, x) ∈ l := by
  simp [under]

lemma count_under [DecidableEq β] (l : List (κ × β)) (k : κ) (x : β) :
    (under l k).count x = l.count (k, x) := by
  induction l with
  | nil => rfl
  | cons e l ih =>
    obtain ⟨k', y⟩ := e
    by_cases hk : k' = k
    · subst hk
      have hunder : under ((k', y) :: l) k' = y :: under l k' := by simp [under]
      rw [hunder, List.count_cons, List.count_cons, ih]
      simp
    · have hunder : under ((k', y) :: l) k = under l k := by simp [under, hk]
      rw [hunder, ih, List.count_cons_of_ne (by simp [hk])]

lemma under_eq_nil (h : k ∉ l.map Prod.fst) : under l k = [] := by
  refine List.eq_nil_iff_forall_not_mem.mpr fun x hx => h ?_
  exact List.mem_map_of_mem (f := Prod.fst) (mem_under.mp hx)

/-- Only the keys of the two lists have to be looked at. -/
instance [DecidableEq β] (l l' : List (κ × β)) : Decidable (∀ k, under l k = under l' k) :=
  decidable_of_iff (∀ k ∈ l.map Prod.fst ++ l'.map Prod.fst, under l k = under l' k) (by
    refine ⟨fun h k => ?_, fun h k _ => h k⟩
    by_cases hk : k ∈ l.map Prod.fst ++ l'.map Prod.fst
    · exact h k hk
    · rw [List.mem_append, not_or] at hk
      rw [under_eq_nil hk.1, under_eq_nil hk.2])

/-- A list is settled by what it has under each key, up to the order in which the keys take
turns. -/
lemma perm_of_under_eq [DecidableEq β] (h : ∀ k, under l k = under l' k) : l.Perm l' := by
  refine List.perm_iff_count.mpr fun e => ?_
  rw [← count_under, ← count_under, h]

lemma subperm_of_under [DecidableEq β] (h : ∀ k, under l k <+: under l' k) :
    l.Subperm l' := by
  refine List.subperm_ext_iff.mpr fun e _ => ?_
  rw [← count_under, ← count_under]
  exact (h e.1).sublist.count_le e.2

end Under

/-! ### Moves and courses -/

/-- Where a view comes from. The first view has the descent `[]`; a view that was opened by an
action has the number of that action, among those of the view that it was performed on, in front of
that view's descent. -/
abbrev Descent := List Nat

/-- An action, and what came of it. -/
structure Move where
  action : Action
  reply : Except ReadFault Reply
deriving DecidableEq

/-- A desk, and how it came about. -/
structure Course where
  desk : Desk := .start
  /-- The descents of the views, by number. -/
  descents : List Descent := [[]]
  /-- What was done, each move under the descent of its view. -/
  moves : List (Descent × Move) := []

namespace Course

/-- The moves on one view. -/
def movesOn (c : Course) (n : Descent) : List Move := under c.moves n

/-- The actions on one view. -/
def actionsOn (c : Course) (n : Descent) : List Action := (c.movesOn n).map Move.action

/-- The course goes on with a move. -/
def moved (c : Course) (n : Descent) (m : Move) (d : Desk) : Course where
  desk := d
  descents := c.descents ++ (Reply.opened? m.reply).toList.map fun _ => (c.movesOn n).length :: n
  moves := c.moves ++ [(n, m)]

/-- The course goes on with an action on the view of a number; a number that no view has changes
nothing. -/
def next (b : Buffer) (c : Course) (request : Nat × Action) : Course :=
  match c.descents[request.1]?, c.desk.step b request.1 request.2 with
  | some n, some (r, d) => c.moved n ⟨request.2, r⟩ d
  | _, _ => c

/-- What becomes of actions at a desk with one view. -/
def of (b : Buffer) (requests : List (Nat × Action)) : Course := requests.foldl (next b) {}

/-- There is a view of this descent, and this is its state. -/
def Has (c : Course) (n : Descent) (v : View) : Prop :=
  ∃ number : ℕ, c.descents[number]? = some n ∧ c.desk.views[number]? = some v

/-- The view at which the descent begins, by what the moves opened. -/
def Origin (c : Course) : Descent → View → Prop
  | [], o => o = {}
  | k :: n, o => ∃ m, (c.movesOn n)[k]? = some m ∧ m.reply = .ok (.opened o)

variable {b : Buffer} {c : Course} {request : ℕ × Action} {requests : List (ℕ × Action)}
  {n n' : Descent} {m : Move} {v w o : View} {number k : ℕ} {d : Desk}

lemma of_snoc (b : Buffer) (requests : List (ℕ × Action)) (request : ℕ × Action) :
    of b (requests ++ [request]) = (of b requests).next b request := by
  simp [of]

/-- A course goes on with a step, or it stays. -/
lemma next_cases (b : Buffer) (c : Course) (request : ℕ × Action) : c.next b request = c ∨
    ∃ n m v w d, c.descents[request.1]? = some n ∧
      c.desk.Steps b request.1 m.action v m.reply w d ∧ m.action = request.2 ∧
      c.next b request = c.moved n m d := by
  unfold next
  split
  · rename_i n r d hn hstep
    obtain ⟨v, w, hsteps⟩ := Desk.steps_inv hstep
    exact .inr ⟨n, ⟨request.2, r⟩, v, w, d, hn, hsteps, rfl, rfl⟩
  · exact .inl rfl

/-- What holds at first and is kept by each step holds in every course. -/
lemma of_induct {P : Course → Prop} (start : P {})
    (moved : ∀ c number n m v w d, P c → c.descents[number]? = some n →
      c.desk.Steps b number m.action v m.reply w d → P (c.moved n m d))
    (requests : List (ℕ × Action)) : P (of b requests) := by
  induction requests using List.reverseRecOn with
  | nil => exact start
  | append_singleton requests request ih =>
    rw [of_snoc]
    rcases next_cases b (of b requests) request with hsame | ⟨n, m, v, w, d, hn, hsteps, -, hnext⟩
    · rwa [hsame]
    · rw [hnext]
      exact moved _ _ n m v w d ih hn hsteps

lemma movesOn_moved (c : Course) (n : Descent) (m : Move) (d : Desk) (k : Descent) :
    (c.moved n m d).movesOn k = c.movesOn k ++ if n = k then [m] else [] := under_snoc _ _ _

lemma movesOn_moved_self : (c.moved n m d).movesOn n = c.movesOn n ++ [m] := by
  rw [movesOn_moved, if_pos rfl]

lemma movesOn_moved_of_ne (h : n ≠ n') : (c.moved n m d).movesOn n' = c.movesOn n' := by
  rw [movesOn_moved, if_neg h, List.append_nil]

lemma actionsOn_moved_self : (c.moved n m d).actionsOn n = c.actionsOn n ++ [m.action] := by
  rw [actionsOn, movesOn_moved_self, List.map_append, List.map_singleton, actionsOn]

lemma actionsOn_moved_of_ne (h : n ≠ n') : (c.moved n m d).actionsOn n' = c.actionsOn n' := by
  rw [actionsOn, movesOn_moved_of_ne h, actionsOn]

lemma movesOn_prefix_moved (c : Course) (n : Descent) (m : Move) (d : Desk) (k : Descent) :
    c.movesOn k <+: (c.moved n m d).movesOn k := by
  rw [movesOn_moved]
  exact List.prefix_append _ _

lemma actionsOn_prefix_moved (c : Course) (n : Descent) (m : Move) (d : Desk) (k : Descent) :
    c.actionsOn k <+: (c.moved n m d).actionsOn k := (movesOn_prefix_moved c n m d k).map _

lemma mem_descents_moved : n' ∈ (c.moved n m d).descents ↔
    n' ∈ c.descents ∨ n' = (c.movesOn n).length :: n ∧ ∃ o, m.reply = .ok (.opened o) := by
  simp only [moved, List.mem_append, List.mem_map, Option.mem_toList, Reply.opened?_eq_some]
  refine or_congr_right ⟨?_, ?_⟩
  · rintro ⟨o, ho, rfl⟩
    exact ⟨rfl, o, ho⟩
  · rintro ⟨rfl, o, ho⟩
    exact ⟨o, ho, rfl⟩

/-- What was opened stays opened. -/
lemma Origin.moved (h : c.Origin n' o) (n : Descent) (m : Move) (d : Desk) :
    (c.moved n m d).Origin n' o := by
  cases n' with
  | nil => exact h
  | cons k n' =>
    obtain ⟨m', hm', ho⟩ := h
    exact ⟨m', prefix_getElem? (movesOn_prefix_moved c n m d n') hm', ho⟩

lemma Origin.unique {o' : View} (h : c.Origin n o) (h' : c.Origin n o') : o = o' := by
  cases n with
  | nil => exact h.trans h'.symm
  | cons k n =>
    obtain ⟨m, hm, ho⟩ := h
    obtain ⟨m', hm', ho'⟩ := h'
    rw [hm] at hm'
    cases hm'
    rw [ho] at ho'
    cases ho'
    rfl

/-- A move opens at most one view. -/
lemma origin_moved_iff : (c.moved n m d).Origin (k :: n') o ↔
    c.Origin (k :: n') o ∨ k = (c.movesOn n).length ∧ n' = n ∧ m.reply = .ok (.opened o) := by
  constructor
  · rintro ⟨m', hm', ho⟩
    rw [movesOn_moved] at hm'
    split at hm'
    · rename_i heq
      subst heq
      rcases Nat.lt_trichotomy k (c.movesOn n).length with hlt | rfl | hgt
      · rw [List.getElem?_append_left hlt] at hm'
        exact .inl ⟨m', hm', ho⟩
      · rw [List.getElem?_concat_length] at hm'
        cases hm'
        exact .inr ⟨rfl, rfl, ho⟩
      · rw [List.getElem?_eq_none (by simpa using hgt)] at hm'
        cases hm'
    · rw [List.append_nil] at hm'
      exact .inl ⟨m', hm', ho⟩
  · rintro (h | ⟨rfl, rfl, ho⟩)
    · exact h.moved n m d
    · exact ⟨m, by rw [movesOn_moved_self, List.getElem?_concat_length], ho⟩

/-- The descents of a course are in order: each view has its own, and there is one for each view
that a move has opened. -/
structure Regular (c : Course) : Prop where
  length_eq : c.descents.length = c.desk.views.length
  nodup : c.descents.Nodup
  mem_iff : ∀ n, n ∈ c.descents ↔ ∃ o, c.Origin n o
  mem_of_moves : ∀ n m, (n, m) ∈ c.moves → n ∈ c.descents

/-- No view has yet been opened by the action that comes next. -/
lemma Regular.notMem (h : c.Regular) (n : Descent) : (c.movesOn n).length :: n ∉ c.descents := by
  rw [h.mem_iff]
  rintro ⟨o, m, hm, -⟩
  rw [List.getElem?_eq_none le_rfl] at hm
  cases hm

lemma Regular.moved (h : c.Regular) (hn : c.descents[number]? = some n)
    (hsteps : c.desk.Steps b number m.action v m.reply w d) : (c.moved n m d).Regular where
  length_eq := by
    have hlength := h.length_eq
    simp [Course.moved, hsteps.views_eq, hlength]
  nodup := by
    refine List.nodup_append'.mpr ⟨h.nodup, ?_, ?_⟩
    · cases Reply.opened? m.reply <;> simp
    · intro n' hn' hnew
      obtain ⟨-, -, rfl⟩ := List.mem_map.mp hnew
      exact h.notMem n hn'
  mem_iff n' := by
    cases n' with
    | nil =>
      have hfirst : [] ∈ c.descents := (h.mem_iff []).mpr ⟨_, rfl⟩
      exact iff_of_true (mem_descents_moved.mpr (.inl hfirst)) ⟨_, rfl⟩
    | cons k n' =>
      simp only [mem_descents_moved, h.mem_iff, origin_moved_iff, exists_or, List.cons.injEq,
        exists_and_left, and_assoc]
  mem_of_moves n' m' hmem := by
    rcases List.mem_append.mp hmem with hmem | hmem
    · exact mem_descents_moved.mpr (.inl (h.mem_of_moves n' m' hmem))
    · cases List.mem_singleton.mp hmem
      exact mem_descents_moved.mpr (.inl (List.mem_of_getElem? hn))

lemma regular_of (b : Buffer) (requests : List (ℕ × Action)) : (of b requests).Regular := by
  refine of_induct ⟨rfl, by simp, fun n => ?_, by simp⟩
    (fun c number n m v w d h hn hsteps => h.moved hn hsteps) requests
  cases n with
  | nil => exact iff_of_true (by simp) ⟨_, rfl⟩
  | cons k n => exact iff_of_false (by simp) (by rintro ⟨o, m, hm, -⟩; cases hm)

namespace Regular

lemma has_iff (h : c.Regular) : n ∈ c.descents ↔ ∃ v, c.Has n v := by
  constructor
  · intro hn
    obtain ⟨number, hnumber⟩ := List.mem_iff_getElem?.mp hn
    have hlt := (List.getElem?_eq_some_iff.mp hnumber).1
    rw [h.length_eq] at hlt
    exact ⟨_, number, hnumber, List.getElem?_eq_getElem hlt⟩
  · rintro ⟨v, number, hn, -⟩
    exact List.mem_of_getElem? hn

/-- After a move the view that it was on is where the step has left it, the view that it has opened
is where it was opened, and all others are where they were. -/
lemma has_moved (h : c.Regular) (hn : c.descents[number]? = some n)
    (hsteps : c.desk.Steps b number m.action v m.reply w d) {u : View}
    (hu : (c.moved n m d).Has n' u) :
    n' = n ∧ u = w ∨ n' ≠ n ∧ c.Has n' u ∨
      n' = (c.movesOn n).length :: n ∧ m.reply = .ok (.opened u) := by
  obtain ⟨i, hi, hu⟩ := hu
  have hviews : (c.moved n m d).desk.views =
      c.desk.views.set number w ++ (Reply.opened? m.reply).toList := hsteps.views_eq
  have hlength : c.descents.length = (c.desk.views.set number w).length := by
    rw [List.length_set, h.length_eq]
  rw [hviews] at hu
  unfold Course.moved at hi
  rcases Nat.lt_or_ge i c.descents.length with hlt | hge
  · rw [List.getElem?_append_left hlt] at hi
    rw [List.getElem?_append_left (hlength ▸ hlt), List.getElem?_set] at hu
    split at hu
    · rename_i heq
      subst heq
      rw [hn] at hi
      cases hi
      split at hu
      · cases hu
        exact .inl ⟨rfl, rfl⟩
      · cases hu
    · rename_i hne
      refine .inr (.inl ⟨?_, i, hi, hu⟩)
      rintro rfl
      exact hne ((List.getElem?_inj hlt h.nodup).mp (hi.trans hn.symm)).symm
  · rw [List.getElem?_append_right hge] at hi
    rw [List.getElem?_append_right (hlength ▸ hge), ← hlength] at hu
    have hopened := List.mem_of_getElem? hu
    rw [Option.mem_toList, Reply.opened?_eq_some] at hopened
    obtain ⟨-, -, rfl⟩ := List.mem_map.mp (List.mem_of_getElem? hi)
    exact .inr (.inr ⟨rfl, hopened⟩)

end Regular

end Course

end AbiSpan
