import AbiSpan.Proofs.ItemKey
import AbiSpan.Proofs.Session.Calling

/-!
What the items of an interface are called by.

In a plain interface names are identifiers and no type has a blank in it. A signature then begins
with the name up to its first bracket, and no query but a signature has a bracket: so a signature
tells the name, and it tells the hash since it is what is hashed. Whatever else names just one
function, the function's signature names that one and no other.
-/

namespace AbiSpan

/-! ### Plain items -/

lemma Text.Dense.intercalate {ss : List String} (h : ∀ s ∈ ss, Text.Dense s.toList) :
    Text.Dense (",".intercalate ss).toList := by
  induction ss with
  | nil => decide
  | cons s ss ih =>
    cases ss with
    | nil => simpa using h
    | cons t ss =>
      rw [String.intercalate_cons_cons, String.toList_append, String.toList_append]
      refine .append (.append (h s (by simp)) (by decide)) (ih fun u hu => h u ?_)
      exact List.mem_cons_of_mem _ hu

namespace Param

mutual

/-- No type has a blank in it, the input's own no more than those of its components. -/
def isTight : Param → Bool
  | ⟨_, typeText, _, components⟩ => decide (Text.Dense typeText.toList) && allTight components

def allTight : List Param → Bool
  | [] => true
  | p :: ps => p.isTight && allTight ps

end

lemma signatureTypes_eq_map (ps : List Param) : signatureTypes ps = ps.map signatureType := by
  induction ps with
  | nil => rfl
  | cons p ps ih => rw [signatureTypes, ih, List.map_cons]

mutual

lemma dense_signatureType (p : Param) (h : p.isTight = true) :
    Text.Dense p.signatureType.toList := by
  obtain ⟨name, typeText, indexed, components⟩ := p
  rw [isTight, Bool.and_eq_true, decide_eq_true_eq] at h
  cases components with
  | nil => exact h.1
  | cons p ps =>
    have htypes := dense_signatureTypes (p :: ps) h.2
    simp only [signatureType, String.toList_append, String.toList_ofList]
    refine .append (.append (.append (by decide) (.intercalate htypes)) (by decide)) ?_
    exact fun c hc => h.1 c (List.mem_of_mem_drop hc)

lemma dense_signatureTypes (ps : List Param) (h : allTight ps = true) :
    ∀ s ∈ signatureTypes ps, Text.Dense s.toList := by
  cases ps with
  | nil => exact fun _ hs => by cases hs
  | cons p ps =>
    rw [allTight, Bool.and_eq_true] at h
    exact List.forall_mem_cons.mpr ⟨dense_signatureType p h.1, dense_signatureTypes ps h.2⟩

end

end Param

/-- The name of an item is an identifier and the types of its inputs have no blanks in them. -/
structure IsPlain (name : String) (inputs : List Param) : Prop where
  isName : TypeText.isName name = true
  isTight : Param.allTight inputs = true

/-- A signature is the name, a bracket, and what is in the brackets. -/
lemma toList_signatureText (name : String) (inputs : List Param) :
    (signatureText name inputs).toList =
      name.toList ++
        '(' :: ((",".intercalate (inputs.map Param.signatureType)).toList ++ [')']) := by
  simp [signatureText]

namespace IsPlain

variable {name name' : String} {inputs inputs' : List Param} {width : ℕ} {query : String}

lemma dense_signatureText (h : IsPlain name inputs) :
    Text.Dense (signatureText name inputs).toList := by
  have htypes := Param.dense_signatureTypes inputs h.isTight
  rw [Param.signatureTypes_eq_map] at htypes
  rw [toList_signatureText]
  refine .append (TypeText.dense_of_isName h.isName) (List.forall_mem_cons.mpr ⟨by decide, ?_⟩)
  exact Text.Dense.append (.intercalate htypes) (by decide)

/-- A signature tells the name. -/
lemma name_eq_of_signatureText_eq (h : IsPlain name inputs) (h' : IsPlain name' inputs')
    (heq : signatureText name inputs = signatureText name' inputs') : name = name' := by
  have hfront {name : String} {inputs : List Param} (h : IsPlain name inputs) :
      (signatureText name inputs).toList.takeWhile (· != '(') = name.toList := by
    rw [toList_signatureText, List.takeWhile_append_of_pos, List.takeWhile_cons_of_neg (by simp),
      List.append_nil]
    intro c hc
    rw [bne_iff_ne]
    rintro rfl
    exact TypeText.bracket_notMem_of_isName h.isName hc
  rw [← String.toList_inj, ← hfront h, ← hfront h', heq]

lemma ofString_of_spaced (h : IsPlain name inputs)
    (hquery : Text.Spaced (signatureText name inputs).toList query.toList) :
    ItemKey.ofString width query = .ok (.signature (signatureText name inputs)) := by
  refine ItemKey.ofString_of_spaced h.dense_signatureText ?_ ?_ hquery
  · simp [toList_signatureText]
  · rw [toList_signatureText, List.head?_append]
    obtain ⟨c, cs, hname, -⟩ := TypeText.isName_inv h.isName
    have hhead := TypeText.head?_ne_of_isName h.isName
    rw [hname] at hhead ⊢
    exact hhead

end IsPlain

/-- All items of the interface are plain. -/
structure Interface.Plain (i : Interface) : Prop where
  events : ∀ e ∈ i.events, IsPlain e.name e.inputs
  functions : ∀ f ∈ i.functions, IsPlain f.name f.inputs

/-! ### Functions -/

namespace Function

/-- The key names the function. -/
def named (f : Function) (key : ItemKey) : Bool :=
  key.names f.selector.bytes f.signature f.name

lemma selector_eq_of_signature_eq {f g : Function} (h : f.signature = g.signature) :
    f.selector = g.selector := by
  simp only [selector, h]

/-- The query is the function's name, or its selector in digits of any letter case. -/
def IsAlias (f : Function) (query : String) : Prop :=
  query = f.name ∨ ItemKey.IsHashText f.selector.bytes query

end Function

namespace Interface

variable {i : Interface} {key : ItemKey} {query : String} {a : Address} {f : Function}

/-- What a query for functions by a key comes to. -/
inductive Answers (i : Interface) (key : ItemKey) (query : String) (a : Address) :
    Except QueryFault Function → Prop
  | one {f : Function} {before after : List Function} : i.functions = before ++ f :: after →
    f.named key = true → (∀ g ∈ before ++ after, g.named key = false) →
    Answers i key query a (.ok f)
  | none : (∀ f ∈ i.functions, f.named key = false) →
    Answers i key query a (.error (.functionNotFound query a.checksummed))
  | several {n : ℕ} : i.functions.countP (·.named key) = n → 2 ≤ n →
    Answers i key query a (.error (.ambiguousFunction query n))

/-- The only function that a query names. -/
def called (i : Interface) (query : String) (a : Address) : Except QueryFault Function :=
  (ItemKey.ofFunctionQuery query).bind fun key => i.function key query a

lemma function_eq (i : Interface) (key : ItemKey) (query : String) (a : Address) :
    i.function key query a = match i.functions.filter (·.named key) with
      | [] => .error (.functionNotFound query a.checksummed)
      | [f] => .ok f
      | fs => .error (.ambiguousFunction query fs.length) := rfl

lemma filter_named_eq_nil_iff : i.functions.filter (·.named key) = [] ↔
    ∀ f ∈ i.functions, f.named key = false := by
  simp only [List.filter_eq_nil_iff, Bool.not_eq_true]

lemma filter_named_eq_singleton_iff : i.functions.filter (·.named key) = [f] ↔
    ∃ before after, i.functions = before ++ f :: after ∧ f.named key = true ∧
      ∀ g ∈ before ++ after, g.named key = false := by
  simp only [List.filter_eq_cons_iff, List.filter_eq_nil_iff, List.forall_mem_append,
    Bool.not_eq_true]
  constructor
  · rintro ⟨before, after, hfs, hbefore, hf, hafter⟩
    exact ⟨before, after, hfs, hf, hbefore, hafter⟩
  · rintro ⟨before, after, hfs, hf, hbefore, hafter⟩
    exact ⟨before, after, hfs, hbefore, hf, hafter⟩

lemma answers_function : i.Answers key query a (i.function key query a) := by
  rcases hfs : i.functions.filter (·.named key) with _ | ⟨f, _ | ⟨g, fs⟩⟩
  · rw [function_eq, hfs]
    exact .none (filter_named_eq_nil_iff.mp hfs)
  · rw [function_eq, hfs]
    obtain ⟨before, after, hall, hf, hrest⟩ := filter_named_eq_singleton_iff.mp hfs
    exact .one hall hf hrest
  · rw [function_eq, hfs]
    exact .several (by rw [List.countP_eq_length_filter, hfs]) (by simp)

/-- **A query for functions is answered just as `Answers` says.** -/
lemma function_eq_iff {r : Except QueryFault Function} :
    i.function key query a = r ↔ i.Answers key query a r := by
  refine ⟨fun h => h ▸ answers_function, fun h => ?_⟩
  rw [function_eq]
  cases h with
  | one hall hf hrest => rw [filter_named_eq_singleton_iff.mpr ⟨_, _, hall, hf, hrest⟩]
  | none hnone => rw [filter_named_eq_nil_iff.mpr hnone]
  | several hcount hle =>
    rw [List.countP_eq_length_filter] at hcount
    subst hcount
    rcases hfs : i.functions.filter (·.named key) with _ | ⟨f, _ | ⟨g, fs⟩⟩
    · simp [hfs] at hle
    · simp [hfs] at hle
    · rw [hfs]

lemma filter_eq_singleton_of_imp {α : Type} {l : List α} {p q : α → Bool} {x : α}
    (h : l.filter p = [x]) (hx : q x = true) (himp : ∀ y ∈ l, q y = true → p y = true) :
    l.filter q = [x] := by
  have hboth : l.filter q = (l.filter p).filter q := by
    rw [List.filter_filter]
    refine List.filter_congr fun y hy => ?_
    cases hq : q y with
    | false => rfl
    | true => rw [himp y hy hq, Bool.and_self]
  rw [hboth, h, List.filter_singleton, hx]
  rfl

lemma called_eq_ok_iff : i.called query a = .ok f ↔ i.NamesOnly query f := by
  constructor
  · intro h
    cases hkey : ItemKey.ofFunctionQuery query with
    | error fault =>
      rw [called, hkey] at h
      cases h
    | ok key =>
      rw [called, hkey] at h
      exact namesOnly_of_function hkey h
  · rintro ⟨key, hkey, honly⟩
    rw [called, hkey]
    show i.function key query a = .ok f
    rw [function, honly]

/-- Where the name or the selector names just one function, its signature names the same. -/
lemma NamesOnly.of_spaced (h : i.NamesOnly query f) (hi : i.Plain) (hquery : f.IsAlias query)
    {text : String} (htext : Text.Spaced f.signature.toList text.toList) : i.NamesOnly text f := by
  have hplain := hi.functions f h.mem
  obtain ⟨key, hkey, honly⟩ := h
  refine ⟨.signature f.signature, hplain.ofString_of_spaced htext,
    filter_eq_singleton_of_imp honly (beq_self_eq_true _) fun g hg hsignature => ?_⟩
  have hsignature : f.signature = g.signature := eq_of_beq hsignature
  rcases hquery with rfl | hhash
  · cases hkey.symm.trans (ItemKey.ofString_of_isName hplain.isName)
    exact beq_iff_eq.mpr (hplain.name_eq_of_signatureText_eq (hi.functions g hg) hsignature)
  · cases hkey.symm.trans (ItemKey.ofString_of_isHashText hhash f.selector.length_bytes)
    exact beq_iff_eq.mpr (congrArg _ (Function.selector_eq_of_signature_eq hsignature))

end Interface

end AbiSpan
