import AbiSpan.Proofs.Desk.Budget

/-!
Views share the count, and nothing else.

An action that the guard does not stop does what it does where nothing is counted, `Action.alone`.
So where the guard stops nothing, a view is where its own actions have brought it from the place at
which it was opened, whatever was done through other views meanwhile. That place is a reply to an
action on another view, and so it depends in turn on what was done there before, up to the first
view. The order in which the views take turns is of no consequence, as long as each is opened
before it is used: even the sum of what is counted is the same, so that the guard, too, stops
nothing in one order that it lets pass in another.
-/

namespace AbiSpan

variable {b : Buffer} {v w o : View} {size n m : ℕ} {a : Action} {r : Except ReadFault Reply}
  {actions actions' : List Action}

/-! ### Actions where nothing is counted -/

namespace Action

/-- What comes of an action where nothing is counted, and where it leaves the view. -/
def alone (b : Buffer) (v : View) (a : Action) : Except ReadFault Reply × View :=
  match a.read? with
  | none => a.still b v
  | some (size, unpadded) =>
    match v.readEnd b size unpadded with
    | .error fault => (.error fault, v)
    | .ok stop => (a.judge b v ((b.bytes.drop v.position).take size), v.ahead (stop - v.position))

lemma Does.eq_alone (h : a.Does b v n r w m) (hr : Move.stopped ⟨a, r⟩ = false) :
    a.alone b v = (r, w) := by
  cases h with
  | still h => rw [alone, h]
  | reads h hread =>
    cases hread with
    | outside hend => simp only [alone, h, hend, Except.bind]
    | stopped hend hover => cases hr
    | done hend hunder => simp only [alone, h, hend, Except.bind]

/-- What is stopped is counted as if it was not. -/
lemma Does.charge_alone (h : a.Does b v n r w m) :
    Move.charge ⟨a, (a.alone b v).1⟩ = Move.charge ⟨a, r⟩ := by
  cases h with
  | still h => rw [alone, h]
  | reads h hread =>
    cases hread with
    | outside hend => simp only [alone, h, hend, Except.bind]
    | stopped hend hover =>
      simp only [alone, h, hend, charge_judge h]
      simp [Move.charge, h, Except.bind]
    | done hend hunder => simp only [alone, h, hend, Except.bind]

end Action

namespace View

/-- The moves that actions make on a view where nothing is counted. -/
def alone (b : Buffer) : View → List Action → List Move
  | _, [] => []
  | v, a :: actions => ⟨a, (a.alone b v).1⟩ :: (a.alone b v).2.alone b actions

/-- Where actions bring a view if nothing is counted. -/
def after (b : Buffer) (v : View) (actions : List Action) : View :=
  actions.foldl (fun v a => (a.alone b v).2) v

lemma after_snoc (b : Buffer) (v : View) (actions : List Action) (a : Action) :
    v.after b (actions ++ [a]) = (a.alone b (v.after b actions)).2 := by
  simp [after]

lemma alone_append (b : Buffer) (v : View) (actions actions' : List Action) :
    v.alone b (actions ++ actions') =
      v.alone b actions ++ (v.after b actions).alone b actions' := by
  induction actions generalizing v with
  | nil => rfl
  | cons a actions ih => exact congrArg (_ :: ·) (ih _)

lemma alone_snoc (b : Buffer) (v : View) (actions : List Action) (a : Action) :
    v.alone b (actions ++ [a]) = v.alone b actions ++ [⟨a, (a.alone b (v.after b actions)).1⟩] :=
  alone_append b v actions [a]

lemma alone_take (b : Buffer) (v : View) (actions : List Action) (k : ℕ) :
    (v.alone b actions).take k = v.alone b (actions.take k) := by
  induction actions generalizing v k with
  | nil => simp [alone]
  | cons a actions ih =>
    cases k with
    | zero => rfl
    | succ k => exact congrArg (_ :: ·) (ih _ k)

lemma prefix_alone (b : Buffer) (v : View) (h : actions <+: actions') :
    v.alone b actions <+: v.alone b actions' := by
  obtain ⟨rest, rfl⟩ := h
  rw [alone_append]
  exact List.prefix_append _ _

end View

namespace Course

variable {c c' : Course} {requests requests' : List (ℕ × Action)} {n p : Descent} {k : ℕ}

/-! ### Views for themselves -/

/-- Every view is where its own actions have brought it, and they have been answered as if nothing
was counted. -/
def Apart (b : Buffer) (c : Course) : Prop :=
  ∀ n v, c.Has n v → ∃ o, c.Origin n o ∧ c.movesOn n = o.alone b (c.actionsOn n) ∧
    v = o.after b (c.actionsOn n)

lemma Regular.movesOn_eq_nil (h : c.Regular) (hn : n ∉ c.descents) : c.movesOn n = [] :=
  List.eq_nil_iff_forall_not_mem.mpr fun m hm => hn (h.mem_of_moves n m (mem_under.mp hm))

lemma Apart.moved {number : ℕ} {m : Move} {d : Desk} (h : c.Apart b) (hreg : c.Regular)
    (hn : c.descents[number]? = some n) (hsteps : c.desk.Steps b number m.action v m.reply w d)
    (hm : m.stopped = false) : (c.moved n m d).Apart b := by
  intro n' u hu
  rcases hreg.has_moved hn hsteps hu with ⟨rfl, rfl⟩ | ⟨hne, hu⟩ | ⟨rfl, ho⟩
  · obtain ⟨o, ho, hmoves, rfl⟩ := h n' v ⟨number, hn, hsteps.named⟩
    have halone := hsteps.does.eq_alone hm
    refine ⟨o, ho.moved n' m d, ?_, ?_⟩
    · rw [actionsOn_moved_self, movesOn_moved_self, View.alone_snoc, halone, ← hmoves]
    · rw [actionsOn_moved_self, View.after_snoc, halone]
  · obtain ⟨o, ho, hmoves, hafter⟩ := h n' u hu
    rw [actionsOn_moved_of_ne hne.symm, movesOn_moved_of_ne hne.symm]
    exact ⟨o, ho.moved n m d, hmoves, hafter⟩
  · have hnil : (c.moved n m d).movesOn ((c.movesOn n).length :: n) = [] := by
      rw [movesOn_moved_of_ne (List.cons_ne_self _ _).symm, hreg.movesOn_eq_nil (hreg.notMem n)]
    rw [actionsOn, hnil]
    exact ⟨u, origin_moved_iff.mpr (.inr ⟨rfl, rfl, ho⟩), rfl, rfl⟩

lemma apart_of (h : (of b requests).Unstopped) : (of b requests).Apart b := by
  refine (of_induct (P := fun c => c.Regular ∧ (c.Unstopped → c.Apart b)) ⟨regular_of b [], ?_⟩
    (fun c number n m v w d hc hn hsteps => ⟨hc.1.moved hn hsteps, fun h => ?_⟩) requests).2 h
  · rintro - n v ⟨number, hn, hv⟩
    cases List.mem_singleton.mp (List.mem_of_getElem? hn)
    cases List.mem_singleton.mp (List.mem_of_getElem? hv)
    exact ⟨_, rfl, rfl, rfl⟩
  · obtain ⟨hunstopped, hm⟩ := unstopped_moved.mp h
    exact (hc.2 hunstopped).moved hc.1 hn hsteps hm

lemma movesOn_eq_alone (h : (of b requests).Unstopped) (ho : (of b requests).Origin n o) :
    (of b requests).movesOn n = o.alone b ((of b requests).actionsOn n) := by
  have hreg := regular_of b requests
  obtain ⟨v, hv⟩ := hreg.has_iff.mp ((hreg.mem_iff n).mpr ⟨o, ho⟩)
  obtain ⟨o', ho', hmoves, -⟩ := apart_of h n v hv
  rwa [ho.unique ho']

lemma has_iff_after (h : (of b requests).Unstopped) : (of b requests).Has n v ↔
    ∃ o, (of b requests).Origin n o ∧ v = o.after b ((of b requests).actionsOn n) := by
  have hreg := regular_of b requests
  constructor
  · intro hv
    obtain ⟨o, ho, -, hafter⟩ := apart_of h n v hv
    exact ⟨o, ho, hafter⟩
  · rintro ⟨o, ho, rfl⟩
    obtain ⟨v, hv⟩ := hreg.has_iff.mp ((hreg.mem_iff n).mpr ⟨o, ho⟩)
    obtain ⟨o', ho', -, rfl⟩ := apart_of h n v hv
    rwa [ho.unique ho']

/-! ### Courses side by side -/

/-- Up to the action that has opened it, a view has the same past in both courses. -/
def SamePast (c c' : Course) (n : Descent) : Prop :=
  ∀ k p, k :: p <:+ n → (c.actionsOn p).take (k + 1) = (c'.actionsOn p).take (k + 1)

/-- What was done through a view came to the same in both courses, and the view is in the same
state, if there is one of this descent at all. -/
def AgreeOn (c c' : Course) (n : Descent) : Prop :=
  c.movesOn n = c'.movesOn n ∧ ∀ v, c.Has n v ↔ c'.Has n v

/-- A view that has been opened in one course has been opened in another that has got as far, and
at the same place. -/
lemma Origin.of_past (hc : (of b requests).Unstopped) (hc' : (of b requests').Unstopped)
    (hpast : ∀ k p, k :: p <:+ n →
      ((of b requests).actionsOn p).take (k + 1) <+: (of b requests').actionsOn p)
    (ho : (of b requests).Origin n o) : (of b requests').Origin n o := by
  induction n generalizing o with
  | nil => exact ho
  | cons k p ih =>
    obtain ⟨m, hm, hopened⟩ := ho
    have hreg := regular_of b requests
    obtain ⟨o', ho'⟩ := (hreg.mem_iff p).mp
      (hreg.mem_of_moves p m (mem_under.mp (List.mem_of_getElem? hm)))
    have hother := ih (fun j q hq => hpast j q (hq.trans (List.suffix_cons k p))) ho'
    -- the first `k + 1` moves on `p` are the same, and the last of them has opened the view
    have hfront := View.prefix_alone b o' (hpast k p List.suffix_rfl)
    rw [← View.alone_take, ← movesOn_eq_alone hc ho', ← movesOn_eq_alone hc' hother] at hfront
    refine ⟨m, prefix_getElem? hfront ?_, hopened⟩
    rwa [List.getElem?_take_of_succ]

lemma Origin.of_prefix (hc : (of b requests).Unstopped) (hc' : (of b requests').Unstopped)
    (h : ∀ p, (of b requests).actionsOn p <+: (of b requests').actionsOn p)
    (ho : (of b requests).Origin n o) : (of b requests').Origin n o :=
  ho.of_past hc hc' fun _ p _ => (List.take_prefix _ _).trans (h p)

/-- A course that goes less far than another has the moves of the other, as far as it goes. -/
lemma prefix_movesOn (hc : (of b requests).Unstopped) (hc' : (of b requests').Unstopped)
    (h : ∀ n, (of b requests).actionsOn n <+: (of b requests').actionsOn n) (n : Descent) :
    (of b requests).movesOn n <+: (of b requests').movesOn n := by
  have hreg := regular_of b requests
  by_cases hn : n ∈ (of b requests).descents
  · obtain ⟨o, ho⟩ := (hreg.mem_iff n).mp hn
    have hother := Origin.of_prefix hc hc' h ho
    rw [movesOn_eq_alone hc ho, movesOn_eq_alone hc' hother]
    exact View.prefix_alone b o (h n)
  · rw [hreg.movesOn_eq_nil hn]
    exact List.nil_prefix

lemma SamePast.origin_iff (h : (of b requests).SamePast (of b requests') n)
    (hc : (of b requests).Unstopped) (hc' : (of b requests').Unstopped) :
    (of b requests).Origin n o ↔ (of b requests').Origin n o := by
  constructor
  · exact Origin.of_past hc hc' fun k p hp => (h k p hp) ▸ List.take_prefix _ _
  · exact Origin.of_past hc' hc fun k p hp => (h k p hp).symm ▸ List.take_prefix _ _

/-- Two courses that have come the same way to a view, and have done the same there, agree on it. -/
lemma SamePast.agreeOn (h : (of b requests).SamePast (of b requests') n)
    (hc : (of b requests).Unstopped) (hc' : (of b requests').Unstopped)
    (hactions : (of b requests).actionsOn n = (of b requests').actionsOn n) :
    (of b requests).AgreeOn (of b requests') n := by
  refine ⟨?_, fun v => ?_⟩
  · have hreg := regular_of b requests
    by_cases hn : n ∈ (of b requests).descents
    · obtain ⟨o, ho⟩ := (hreg.mem_iff n).mp hn
      rw [movesOn_eq_alone hc ho, movesOn_eq_alone hc' ((h.origin_iff hc hc').mp ho), hactions]
    · have hnil := hreg.movesOn_eq_nil hn
      rw [actionsOn, hnil, List.map_nil, eq_comm, actionsOn, List.map_eq_nil_iff] at hactions
      rw [hnil, hactions]
  · simp only [has_iff_after hc, has_iff_after hc', h.origin_iff hc hc', hactions]

lemma charges_le (h : ∀ n, c.movesOn n <+: c'.movesOn n) : c.charges ≤ c'.charges := by
  obtain ⟨moves, hperm, hsub⟩ := subperm_of_under h
  calc c.charges = (moves.map fun e => e.2.charge).sum := (hperm.map _).sum_eq.symm
    _ ≤ c'.charges := (hsub.map _).sum_le_sum fun _ _ => Nat.zero_le _

/-- What comes next on a view has been done, where nothing was stopped, by a course that goes
further. -/
lemma prefix_movesOn_moved {m : Move} {d : Desk} (hc : (of b requests).Unstopped)
    (hc' : (of b requests').Unstopped) (hv : (of b requests).Has n v)
    (h : ∀ k, ((of b requests).moved n m d).actionsOn k <+: (of b requests').actionsOn k) :
    ∀ k, ((of b requests).moved n ⟨m.action, (m.action.alone b v).1⟩ d).movesOn k <+:
      (of b requests').movesOn k := by
  have hpast := fun k => (actionsOn_prefix_moved (of b requests) n m d k).trans (h k)
  intro k
  by_cases hk : n = k
  · subst hk
    obtain ⟨o, ho, hmoves, rfl⟩ := apart_of hc n v hv
    have hother := Origin.of_prefix hc hc' hpast ho
    have hfront := View.prefix_alone b o (h n)
    rwa [actionsOn_moved_self, View.alone_snoc, ← hmoves, ← movesOn_eq_alone hc' hother,
      ← movesOn_moved_self] at hfront
  · rw [movesOn_moved_of_ne hk]
    exact prefix_movesOn hc hc' hpast k

/-- The guard stops no course that goes less far than one that it does not stop. -/
lemma unstopped_of_actionsOn (hc : (of b requests).Unstopped)
    (h : ∀ n, (of b requests').actionsOn n <+: (of b requests).actionsOn n) :
    (of b requests').Unstopped := by
  induction requests' using List.reverseRecOn with
  | nil => simp [of, Unstopped]
  | append_singleton requests' request ih =>
    rw [of_snoc] at h ⊢
    rcases next_cases b (of b requests') request with
      hsame | ⟨n, m, v, w, d, hn, hsteps, -, hnext⟩
    · rw [hsame] at h ⊢
      exact ih h
    rw [hnext] at h ⊢
    have hprevious := ih fun k => (actionsOn_prefix_moved _ n m d k).trans (h k)
    refine unstopped_moved.mpr ⟨hprevious, Bool.eq_false_iff.mpr fun hm => ?_⟩
    -- if the guard stops the move, it has counted it, and the other course has counted it too
    have hexceeded := (hsteps.does.exceeded_iff (bytesRead_le b requests')).mpr (.inr hm)
    have hcharge : m.charge = Move.charge ⟨m.action, (m.action.alone b v).1⟩ :=
      hsteps.does.charge_alone.symm
    have hle : ((of b requests').moved n m d).charges ≤ (of b requests).charges := by
      rw [charges_moved, hcharge, ← charges_moved _ n _ d]
      exact charges_le (prefix_movesOn_moved hprevious hc ⟨_, hn, hsteps.named⟩ h)
    have hmono : d.bytesRead ≤ (of b requests).desk.bytesRead := by
      rw [bytesRead_moved (bytesRead_of b requests') hsteps, bytesRead_of]
      exact min_le_min_right _ hle
    exact (exceeded_iff b requests).mp (Action.exceeded_mono hmono hexceeded) hc

/-! ### Orders -/

/-- What was done, each action under the descent of its view. -/
def order (c : Course) : List (Descent × Action) := c.moves.map fun e => (e.1, e.2.action)

lemma under_order (c : Course) (n : Descent) : under c.order n = c.actionsOn n :=
  under_map _ _ _

lemma order_moved (c : Course) (n : Descent) (m : Move) (d : Desk) :
    (c.moved n m d).order = c.order ++ [(n, m.action)] := by
  simp [order, moved]

/-- Each view is opened before it is used. -/
def RespectsForks (l : List (Descent × Action)) : Prop :=
  ∀ done k n a, done ++ [(k :: n, a)] <+: l → k < (under done n).length

lemma respectsForks_order (b : Buffer) (requests : List (ℕ × Action)) :
    RespectsForks (of b requests).order := by
  refine (of_induct (P := fun c => c.Regular ∧ RespectsForks c.order) ⟨regular_of b [], ?_⟩
    (fun c number n m v w d h hn hsteps => ⟨h.1.moved hn hsteps, ?_⟩) requests).2
  · intro done k n a hdone
    simp [order] at hdone
  · intro done k p a hdone
    rw [order_moved] at hdone
    rcases List.prefix_concat_iff.mp hdone with heq | hdone
    · obtain ⟨rfl, he⟩ := List.append_inj' heq rfl
      simp only [List.cons.injEq, Prod.mk.injEq, and_true] at he
      obtain ⟨o, m', hm', -⟩ := (h.1.mem_iff (k :: p)).mp (he.1 ▸ List.mem_of_getElem? hn)
      rw [under_order, actionsOn, List.length_map]
      exact (List.getElem?_eq_some_iff.mp hm').1
    · exact h.2 done k p a hdone

/-- A view that comes next in an order that respects forks has been opened. -/
lemma mem_descents_of_respects {l : List (Descent × Action)} (hc : (of b requests).Unstopped)
    (hfront : ∀ n, (of b requests').actionsOn n <+: (of b requests).actionsOn n)
    (hl : ∀ n, under l n = (of b requests).actionsOn n) (hforks : RespectsForks l)
    (hnext : (of b requests').order ++ [(k :: p, a)] <+: l) :
    k :: p ∈ (of b requests').descents := by
  have hreg := regular_of b requests
  have hlt := hforks _ k p a hnext
  rw [under_order, actionsOn, List.length_map] at hlt
  -- the other course has used the view, and so it has opened it
  have ha : a ∈ (of b requests).actionsOn (k :: p) := by
    rw [← hl, mem_under]
    exact hnext.subset (by simp)
  obtain ⟨m, hm, -⟩ := List.mem_map.mp ha
  obtain ⟨o, m', hm', ho⟩ :=
    (hreg.mem_iff (k :: p)).mp (hreg.mem_of_moves _ m (mem_under.mp hm))
  have hsame := prefix_getElem?
    (prefix_movesOn (unstopped_of_actionsOn hc hfront) hc hfront p) (List.getElem?_eq_getElem hlt)
  rw [hm', Option.some.injEq] at hsame
  exact ((regular_of b requests').mem_iff _).mpr
    ⟨o, _, List.getElem?_eq_getElem hlt, hsame ▸ ho⟩

/-- An order that does the same on each view can be gone through, up to anywhere. -/
lemma exists_order_eq (hc : (of b requests).Unstopped) {l : List (Descent × Action)}
    (hl : ∀ n, under l n = (of b requests).actionsOn n) (hforks : RespectsForks l)
    {done : List (Descent × Action)} (hdone : done <+: l) :
    ∃ requests', (of b requests').order = done := by
  induction done using List.reverseRecOn with
  | nil => exact ⟨[], rfl⟩
  | append_singleton done e ih =>
    obtain ⟨n, a⟩ := e
    have hprevious := (List.prefix_append done [(n, a)]).trans hdone
    obtain ⟨requests', rfl⟩ := ih hprevious
    have hfront (k : Descent) :
        (of b requests').actionsOn k <+: (of b requests).actionsOn k := by
      rw [← under_order, ← hl k]
      exact prefix_under hprevious k
    have hn : n ∈ (of b requests').descents := by
      cases n with
      | nil => exact ((regular_of b requests').mem_iff []).mpr ⟨_, rfl⟩
      | cons k p => exact mem_descents_of_respects hc hfront hl hforks hdone
    obtain ⟨v, number, hnumber, hv⟩ := (regular_of b requests').has_iff.mp hn
    obtain ⟨r, w, d, hstep, -⟩ := Desk.exists_steps hv b a
    refine ⟨requests' ++ [(number, a)], ?_⟩
    rw [of_snoc, next, hnumber, hstep]
    exact order_moved _ n ⟨a, r⟩ d

lemma charges_eq_of_movesOn_eq (h : ∀ n, c.movesOn n = c'.movesOn n) : c.charges = c'.charges :=
  ((perm_of_under_eq h).map _).sum_eq

/-- A read that hands out its bytes comes before the guard has stopped anything, and has not read
too much. -/
lemma unstopped_of_passed {number : ℕ} {d : Desk} {unpadded : Bool}
    (hsteps : (of b requests).desk.Steps b number a v r w d)
    (ha : a.read? = some (size, unpadded)) (hr : Move.passed ⟨a, r⟩ = true) :
    (of b requests).Unstopped ∧ (0 < b.limits.maxInflation →
      d.bytesRead ≤ min (b.limits.maxInflation * b.size) maxOffset) := by
  have hunder := hsteps.does.not_exceeded ha hr
  have hcount := (hsteps.does.exceeded_iff (bytesRead_le b requests)).not.mp hunder
  refine ⟨?_, fun hpos => not_lt.mp fun hover => hunder ⟨hpos, hover⟩⟩
  rw [not_or, exceeded_iff, not_not] at hcount
  exact hcount.1

/-- **Views share the count, and nothing else.** The count is the sum of all reads that were within
bounds, whichever view they went through. A read that hands out its bytes leaves it within the
limit, and comes before the guard has stopped any other. As long as the guard stops nothing, what
comes of the actions on a view and where they leave it depends on these actions and on those that
led to the view. So if the actions are done in another order that is the same on each view, nothing
is stopped either, all views end the same, and so does the count; and this can be done in any such
order in which each view is opened before it is used. -/
theorem shared_of (b : Buffer) (requests : List (ℕ × Action)) :
    let c := of b requests
    c.desk.bytesRead = min c.charges maxOffset ∧
    (∀ number v a size unpadded r d, c.desk.views[number]? = some v →
      a.read? = some (size, unpadded) → c.desk.step b number a = some (r, d) →
      Move.charge ⟨a, r⟩ = (if (v.readEnd b size unpadded).isOk then size else 0) ∧
      (Move.passed ⟨a, r⟩ = true → c.Unstopped ∧ (0 < b.limits.maxInflation →
        d.bytesRead ≤ min (b.limits.maxInflation * b.size) maxOffset))) ∧
    (c.Unstopped → ∀ requests',
      let c' := of b requests'
      (c'.Unstopped → ∀ n, c.actionsOn n = c'.actionsOn n → c.SamePast c' n → c.AgreeOn c' n) ∧
      ((∀ n, c.actionsOn n = c'.actionsOn n) →
        c'.Unstopped ∧ c.desk.bytesRead = c'.desk.bytesRead ∧ ∀ n, c.AgreeOn c' n)) ∧
    (c.Unstopped → ∀ l, (∀ n, under l n = c.actionsOn n) →
      (RespectsForks l ↔ ∃ requests', (of b requests').order = l)) := by
  intro c
  refine ⟨bytesRead_of b requests, fun number v a size unpadded r d hv ha hstep => ?_,
    fun hc requests' => ?_, fun hc l hl => ⟨?_, ?_⟩⟩
  · obtain ⟨v', w, hsteps⟩ := Desk.steps_inv hstep
    cases hv.symm.trans hsteps.named
    exact ⟨hsteps.does.charge_eq ha, unstopped_of_passed hsteps ha⟩
  · intro c'
    refine ⟨fun hc' n hn hpast => hpast.agreeOn hc hc' hn, fun hactions => ?_⟩
    have hc' : c'.Unstopped := unstopped_of_actionsOn hc fun n => by rw [← hactions n]
    have hagree (n : Descent) : c.AgreeOn c' n :=
      SamePast.agreeOn (fun k p _ => congrArg (List.take (k + 1)) (hactions p)) hc hc' (hactions n)
    refine ⟨hc', ?_, hagree⟩
    rw [bytesRead_of, bytesRead_of, charges_eq_of_movesOn_eq fun n => (hagree n).1]
  · exact fun hforks => exists_order_eq hc hl hforks List.prefix_rfl
  · rintro ⟨requests', rfl⟩
    exact respectsForks_order b requests'

/-- A word of zeros, which may be read twice. -/
def twice : Buffer := { bytes := .replicate 32 0, limits := { maxInflation := 2 } }

/-- Two views are opened from the first and one from these, and the word is read as a pointer and as
an index. If the pointer is followed before the other view is opened, the views have other numbers,
but nothing else is different; and whether it is followed at all is of no consequence to the index.
A third reading of the word is stopped, and so is every reading after that, even of nothing. -/
theorem twice_shared :
    let c := of twice [(0, .duplicate), (0, .openAt 0), (1, .followPointer), (2, .readIndex)]
    let c' := of twice [(0, .duplicate), (1, .followPointer), (0, .openAt 0), (3, .readIndex)]
    let index := of twice [(0, .duplicate), (0, .openAt 0), (2, .readIndex), (0, .jump 32)]
    let inflated := of twice
      [(0, .duplicate), (0, .openAt 0), (1, .followPointer), (2, .readIndex), (0, .readWord)]
    c.descents = [[], [0], [1], [0, 0]] ∧ c'.descents = [[], [0], [0, 0], [1]] ∧
    c.desk.bytesRead = 64 ∧ c'.Unstopped ∧ c.desk.bytesRead = c'.desk.bytesRead ∧
    (∀ n, c.AgreeOn c' n) ∧ RespectsForks c'.order ∧
    index.Unstopped ∧ c.AgreeOn index [1] ∧
    inflated.desk.bytesRead = 96 ∧
    ∀ number r d, inflated.desk.step twice number (.readBytes 0) = some (r, d) →
      Move.passed ⟨.readBytes 0, r⟩ = false := by
  intro c c' index inflated
  have hc : c.Unstopped := by decide +kernel
  have hindex : index.Unstopped := by decide +kernel
  have horder : ∀ n, under c.order n = under c'.order n := by decide +kernel
  have hactions (n : Descent) : c.actionsOn n = c'.actionsOn n := by
    rw [← under_order, ← under_order, horder]
  obtain ⟨-, -, hothers, horders⟩ :=
    shared_of twice [(0, .duplicate), (0, .openAt 0), (1, .followPointer), (2, .readIndex)]
  obtain ⟨hc', hcount, hagree⟩ := (hothers hc _).2 hactions
  have hpast : c.SamePast index [1] := by
    intro k p hp
    cases List.suffix_cons_iff.mp hp with
    | inl heq =>
      cases heq
      decide +kernel
    | inr hnil => cases List.suffix_nil.mp hnil
  obtain ⟨hsum, hreads, -⟩ := shared_of twice
    [(0, .duplicate), (0, .openAt 0), (1, .followPointer), (2, .readIndex), (0, .readWord)]
  refine ⟨by decide +kernel, by decide +kernel, by decide +kernel, hc', hcount, hagree,
    (horders hc c'.order fun n => (under_order c' n).trans (hactions n).symm).mpr ⟨_, rfl⟩,
    hindex, (hothers hc _).1 hindex [1] (by decide +kernel) hpast,
    hsum.trans (by decide +kernel), fun number r d hstep => ?_⟩
  obtain ⟨v, w, hsteps⟩ := Desk.steps_inv hstep
  refine Bool.eq_false_iff.mpr fun hpassed => ?_
  have hover := ((hreads number v _ 0 false r d hsteps.named rfl hstep).2 hpassed).1
  exact absurd hover (by decide +kernel)

end Course

end AbiSpan
