import AbiSpan.LogFilter
import Mathlib.Data.String.Basic
import Mathlib.Tactic

/-!
What a log filter keeps, and what its directives say.

Levels are kept by name: each name once, in order, with the level that it was given last. The
directives go by target, and names that differ only in hyphens and underscores have one target
between them. So each target is named once, with the level that was given last, as long as no
component goes by two spellings; where one does, the directives name its target twice.
-/

namespace AbiSpan.LogFilter

variable {name level : String} {c : String × String} {cs calls : List (String × String)}
  {P : String → Prop}

/-! ### Components -/

/-- The names stand in order, each once. -/
def Ordered (cs : List (String × String)) : Prop := (cs.map Prod.fst).Pairwise (· < ·)

lemma ordered_nil : Ordered [] := .nil

lemma ordered_cons : Ordered (c :: cs) ↔ (∀ d ∈ cs, c.1 < d.1) ∧ Ordered cs := by
  simp [Ordered]

lemma mem_insert (h : Ordered cs) :
    c ∈ insert name level cs ↔ c = (name, level) ∨ c.1 ≠ name ∧ c ∈ cs := by
  induction cs with
  | nil => simp [insert]
  | cons d cs ih =>
    obtain ⟨hd, hcs⟩ := ordered_cons.mp h
    obtain ⟨n, l⟩ := d
    rw [insert]
    split
    · rename_i hlt
      have hne : c ∈ (n, l) :: cs → c.1 ≠ name := fun hc => by
        rcases List.mem_cons.mp hc with rfl | hc
        · exact hlt.ne'
        · exact (hlt.trans (hd c hc)).ne'
      rw [List.mem_cons]
      exact or_congr_right ⟨fun hc => ⟨hne hc, hc⟩, And.right⟩
    · rename_i hle
      split
      · rename_i heq
        subst heq
        have hne : c ∈ cs → c.1 ≠ name := fun hc => (hd c hc).ne'
        rw [List.mem_cons, List.mem_cons]
        refine or_congr_right ⟨fun hc => ⟨hne hc, .inr hc⟩, fun hc => hc.2.resolve_left ?_⟩
        rintro rfl
        exact hc.1 rfl
      · rename_i hne
        rw [List.mem_cons, List.mem_cons, ih hcs]
        have hfirst : c = (n, l) → c.1 ≠ name := by
          rintro rfl
          exact Ne.symm hne
        tauto

lemma ordered_insert (h : Ordered cs) (name level : String) : Ordered (insert name level cs) := by
  induction cs with
  | nil => exact ordered_cons.mpr ⟨by simp, ordered_nil⟩
  | cons d cs ih =>
    obtain ⟨hd, hcs⟩ := ordered_cons.mp h
    obtain ⟨n, l⟩ := d
    rw [insert]
    split
    · rename_i hlt
      refine ordered_cons.mpr ⟨List.forall_mem_cons.mpr ⟨hlt, fun e he => ?_⟩, h⟩
      exact hlt.trans (hd e he)
    · rename_i hle
      split
      · rename_i heq
        subst heq
        exact ordered_cons.mpr ⟨hd, hcs⟩
      · rename_i hne
        refine ordered_cons.mpr ⟨fun e he => ?_, ih hcs⟩
        rcases (mem_insert hcs).mp he with rfl | ⟨-, he⟩
        · exact lt_of_le_of_ne (not_lt.mp hle) (Ne.symm hne)
        · exact hd e he

/-! ### Calls -/

/-- Of the calls with such a name, the last one gives this level. -/
def LastGives (calls : List (String × String)) (P : String → Prop) (level : String) : Prop :=
  ∃ before name after, calls = before ++ (name, level) :: after ∧ P name ∧ ∀ c ∈ after, ¬ P c.1

lemma not_lastGives_nil : ¬ LastGives [] P level := by
  simp [LastGives]

lemma lastGives_snoc : LastGives (calls ++ [c]) P level ↔
    P c.1 ∧ level = c.2 ∨ ¬ P c.1 ∧ LastGives calls P level := by
  constructor
  · intro h
    rcases h with ⟨before, name, after, heq, hP, hafter⟩
    rcases List.eq_nil_or_concat after with rfl | ⟨after, d, rfl⟩
    · obtain ⟨-, hc⟩ := List.append_inj' heq rfl
      cases hc
      exact .inl ⟨hP, rfl⟩
    · rw [List.concat_eq_append] at heq hafter
      rw [← List.cons_append, ← List.append_assoc] at heq
      obtain ⟨rfl, hc⟩ := List.append_inj' heq rfl
      cases hc
      refine .inr ⟨hafter c (by simp), before, name, after, rfl, hP, fun d hd => ?_⟩
      exact hafter d (by simp [hd])
  · intro h
    rcases h with ⟨hP, rfl⟩ | ⟨hP, before, name, after, rfl, hname, hafter⟩
    · exact ⟨calls, c.1, [], rfl, hP, by simp⟩
    · refine ⟨before, name, after ++ [c], by simp, hname, fun d hd => ?_⟩
      rcases List.mem_append.mp hd with hd | hd
      · exact hafter d hd
      · rwa [List.mem_singleton.mp hd]

lemma exists_lastGives : (∃ level, LastGives calls P level) ↔ ∃ c ∈ calls, P c.1 := by
  induction calls using List.reverseRecOn with
  | nil => simp [not_lastGives_nil]
  | append_singleton calls c ih =>
    simp only [lastGives_snoc, List.mem_append, List.mem_singleton, or_and_right, exists_or,
      exists_eq_left, ← ih, exists_and_left, exists_eq]
    tauto

/-- The filter after so many calls. -/
def withComponents (f : LogFilter) (calls : List (String × String)) : LogFilter :=
  calls.foldl (fun f c => f.withComponent c.1 c.2) f

lemma withComponents_snoc (f : LogFilter) : f.withComponents (calls ++ [c]) =
    (f.withComponents calls).withComponent c.1 c.2 := by
  simp [withComponents]

variable {f : LogFilter}

lemma level_withComponents (f : LogFilter) (calls : List (String × String)) :
    (f.withComponents calls).level = f.level := by
  induction calls using List.reverseRecOn with
  | nil => rfl
  | append_singleton calls c ih =>
    rw [withComponents_snoc]
    exact ih

lemma ordered_withComponents (hf : f.components = []) (calls : List (String × String)) :
    Ordered (f.withComponents calls).components := by
  induction calls using List.reverseRecOn with
  | nil =>
    show Ordered f.components
    rw [hf]
    exact ordered_nil
  | append_singleton calls c ih =>
    rw [withComponents_snoc]
    exact ordered_insert ih _ _

/-- What is kept is what was given last. -/
lemma mem_withComponents (hf : f.components = []) (calls : List (String × String)) :
    (name, level) ∈ (f.withComponents calls).components ↔ LastGives calls (· = name) level := by
  induction calls using List.reverseRecOn with
  | nil =>
    show _ ∈ f.components ↔ _
    simp [hf, not_lastGives_nil]
  | append_singleton calls c ih =>
    rw [withComponents_snoc, lastGives_snoc, ← ih]
    refine (mem_insert (ordered_withComponents hf calls)).trans ?_
    rw [Prod.mk.injEq, eq_comm (a := name), ne_comm]

/-! ### Directives -/

/-- What the directives say of each component: its target, and its level. -/
def items (f : LogFilter) : List (String × String) :=
  f.components.map fun c => (target c.1, c.2)

/-- How they say it. -/
def item (i : String × String) : String := "," ++ i.1 ++ "=" ++ i.2

lemma directives_eq (f : LogFilter) : f.directives = f.level ++ String.join (f.items.map item) := by
  have hfold (cs : List (String × String)) (s : String) :
      cs.foldl (fun s c => s ++ "," ++ target c.1 ++ "=" ++ c.2) s =
        s ++ String.join ((cs.map fun c => (target c.1, c.2)).map item) := by
    induction cs generalizing s with
    | nil => simp
    | cons c cs ih =>
      rw [List.foldl_cons, ih, List.map_cons, List.map_cons, String.join_cons]
      simp only [item, String.append_assoc]
  exact hfold f.components f.level

lemma mem_items {t : String} :
    (t, level) ∈ f.items ↔ ∃ name, target name = t ∧ (name, level) ∈ f.components := by
  simp only [items, List.mem_map, Prod.mk.injEq]
  constructor
  · rintro ⟨⟨name, l⟩, hc, ht, rfl⟩
    exact ⟨name, ht, hc⟩
  · rintro ⟨name, ht, hc⟩
    exact ⟨_, hc, ht, rfl⟩

/-- No two of the names are spellings of one target. -/
def OneSpelling (calls : List (String × String)) : Prop :=
  ∀ c ∈ calls, ∀ d ∈ calls, target c.1 = target d.1 → c.1 = d.1

instance (calls : List (String × String)) : Decidable (OneSpelling calls) :=
  inferInstanceAs (Decidable (∀ c ∈ calls, ∀ d ∈ calls, target c.1 = target d.1 → c.1 = d.1))

/-- Where targets are spelled one way only, the last call for the target is the last for its
name. -/
lemma lastGives_target (h : OneSpelling calls) {t : String} :
    (∃ name, target name = t ∧ LastGives calls (· = name) level) ↔
      LastGives calls (fun n => target n = t) level := by
  constructor
  · rintro ⟨_, rfl, before, name, after, rfl, rfl, hafter⟩
    refine ⟨before, name, after, rfl, rfl, fun c hc ht => hafter c hc ?_⟩
    exact h c (by simp [hc]) (name, level) (by simp) ht
  · rintro ⟨before, name, after, rfl, rfl, hafter⟩
    refine ⟨name, rfl, before, name, after, rfl, rfl, fun c hc heq => hafter c hc ?_⟩
    rw [heq]

/-- The targets are named once each if and only if each has been spelled one way only. -/
lemma nodup_targets (hf : f.components = []) (calls : List (String × String)) :
    ((f.withComponents calls).items.map Prod.fst).Nodup ↔ OneSpelling calls := by
  have hnames : ((f.withComponents calls).components.map Prod.fst).Nodup :=
    (ordered_withComponents hf calls).imp ne_of_lt
  have hmem (name : String) : name ∈ (f.withComponents calls).components.map Prod.fst ↔
      ∃ c ∈ calls, c.1 = name := by
    refine Iff.trans ?_ (exists_lastGives (P := (· = name)))
    simp only [← mem_withComponents hf, List.mem_map, Prod.exists, exists_and_right,
      exists_eq_right]
  have htargets : (f.withComponents calls).items.map Prod.fst =
      ((f.withComponents calls).components.map Prod.fst).map target := by
    simp [items]
  rw [htargets, List.nodup_map_iff_inj_on hnames]
  simp only [hmem]
  constructor
  · intro h c hc d hd
    exact h c.1 ⟨c, hc, rfl⟩ d.1 ⟨d, hd, rfl⟩
  · rintro h _ ⟨c, hc, rfl⟩ _ ⟨d, hd, rfl⟩
    exact h c hc d hd

/-- **What the directives say after any calls.** They are the level and an item for each component.
Each name is a component once, with the level that the last call for it gave. Each target has one
item if and only if no two names in the calls are spellings of one target; and then its level is the
one that the last call for it gave. -/
theorem directives_withComponents (level : String) (json : Bool) (calls : List (String × String)) :
    let f := withComponents { level, components := [], json } calls
    f.directives = level ++ String.join (f.items.map item) ∧
    (f.components.map Prod.fst).Nodup ∧
    (∀ name l, (name, l) ∈ f.components ↔ LastGives calls (· = name) l) ∧
    ((f.items.map Prod.fst).Nodup ↔ OneSpelling calls) ∧
    (OneSpelling calls → ∀ t l, (t, l) ∈ f.items ↔ LastGives calls (fun n => target n = t) l) := by
  intro f
  refine ⟨?_, (ordered_withComponents rfl calls).imp ne_of_lt,
    fun name l => mem_withComponents rfl calls, nodup_targets rfl calls, fun h t l => ?_⟩
  · rw [directives_eq, level_withComponents]
  · rw [mem_items, ← lastGives_target h]
    simp only [f, mem_withComponents]

/-- Two components, one of them given a level twice. -/
def twoCrates : List (String × String) :=
  [("chainquery-abi", "trace"), ("chainquery-builder", "debug"), ("chainquery-abi", "warn")]

theorem twoCrates_directives :
    OneSpelling twoCrates ∧
    ("chainquery_abi", "warn") ∈ (withComponents {} twoCrates).items ∧
    (withComponents {} twoCrates).directives =
      "info,chainquery_abi=warn,chainquery_builder=debug" := by
  have hone : OneSpelling twoCrates := by decide +kernel
  obtain ⟨hdirectives, -, -, -, hitems⟩ := directives_withComponents "info" false twoCrates
  refine ⟨hone, (hitems hone _ _).mpr ?_, ?_⟩
  · exact ⟨[("chainquery-abi", "trace"), ("chainquery-builder", "debug")], "chainquery-abi", [],
      rfl, by decide +kernel, by simp⟩
  · exact hdirectives.trans (by decide +kernel)

/-- One component in two spellings. -/
def twoSpellings : List (String × String) := [("a_b", "debug"), ("a-b", "trace")]

/-- The target is named twice, and what it was given last comes first. -/
theorem twoSpellings_directives :
    LastGives twoSpellings (fun n => target n = "a_b") "trace" ∧
    (withComponents {} twoSpellings).items = [("a_b", "trace"), ("a_b", "debug")] ∧
    (withComponents {} twoSpellings).directives = "info,a_b=trace,a_b=debug" := by
  refine ⟨⟨[("a_b", "debug")], "a-b", [], rfl, ?_, by simp⟩, ?_, ?_⟩
  · decide +kernel
  · decide +kernel
  · decide +kernel

end AbiSpan.LogFilter
