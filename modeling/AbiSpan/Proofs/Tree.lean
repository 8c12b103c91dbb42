import AbiSpan.Node
import AbiSpan.Notice
import Mathlib.Tactic

/-!
Walking a tree of nodes.

`preorder` lists every node of a tree, parents first. What a whole tree costs to locate is the
sum of what its nodes cost, and the notices made on the way are read off the tree as well, so
both can be stated without the reader.
-/

namespace AbiSpan.Node

/-- Induction on a node over its children. -/
@[elab_as_elim]
theorem induct {P : Node → Prop} (node : ∀ n, (∀ c ∈ n.children, P c) → P n) : ∀ n, P n
  | ⟨type, offset, size, outOfLine, value, children⟩ =>
    node ⟨type, offset, size, outOfLine, value, children⟩ fun c _ => induct node c

mutual

/-- A node and all below it, parents first. -/
def preorder : Node → List Node
  | ⟨type, offset, size, outOfLine, value, children⟩ =>
    ⟨type, offset, size, outOfLine, value, children⟩ :: preorderOf children

def preorderOf : List Node → List Node
  | [] => []
  | c :: cs => c.preorder ++ preorderOf cs

end

lemma preorder_eq (n : Node) : n.preorder = n :: preorderOf n.children := by
  obtain ⟨_, _, _, _, _, _⟩ := n
  rw [preorder]

@[simp] lemma preorderOf_nil : preorderOf [] = [] := rfl

@[simp] lemma preorderOf_cons (c : Node) (cs : List Node) :
    preorderOf (c :: cs) = c.preorder ++ preorderOf cs := rfl

lemma mem_preorderOf {m : Node} {cs : List Node} :
    m ∈ preorderOf cs ↔ ∃ c ∈ cs, m ∈ c.preorder := by
  induction cs with
  | nil => simp
  | cons c cs ih => simp [ih]

/-- Where sized nodes have no children, the leaves are all the sized nodes. -/
lemma leaves_eq_filter_preorder (n : Node)
    (h : ∀ m ∈ n.preorder, m.size.isSome = true → m.children = []) :
    n.leaves = n.preorder.filter (·.size.isSome) := by
  induction n using induct with
  | node n ih =>
    have hrec : ∀ cs : List Node, (∀ c ∈ cs, c ∈ n.children) →
        cs.flatMap leaves = (preorderOf cs).filter (·.size.isSome) := by
      intro cs
      induction cs with
      | nil => simp
      | cons c cs ihcs =>
        intro hcs
        have hc : c ∈ n.children := hcs c (by simp)
        rw [List.flatMap_cons, preorderOf_cons, List.filter_append,
          ihcs fun c' hc' => hcs c' (by simp [hc'])]
        rw [ih c hc fun m hm => h m (by
          rw [preorder_eq]
          exact List.mem_cons_of_mem _ (mem_preorderOf.mpr ⟨c, hc, hm⟩))]
    by_cases hn : n.children = []
    · rw [leaves_of_no_children hn, preorder_eq, hn]
      by_cases hs : n.size.isSome = true <;> simp [hs]
    · have hs : n.size.isSome = false := by
        by_contra hs
        exact hn (h n (by rw [preorder_eq]; simp) (by simpa [Option.isSome_iff_ne_none] using hs))
      rw [leaves_of_children hn, hrec _ fun _ hc => hc, preorder_eq,
        List.filter_cons_of_neg (by simp [hs])]

/-- A node selects bytes by its offset and its size. -/
lemma slice?_eq_some_iff {n : Node} {b s : Bytes} :
    n.slice? b = some s ↔ ∃ size, n.size = some size ∧ b.slice? n.offset size = some s := by
  unfold slice? span?
  cases n.size <;> simp [Span.slice?]

/-! ### What a tree costs -/

/-- The bytes read for a node and not for its children: the word of a scalar, the pointer of a
value out of line, the count of an array, the length and the payload of a byte string. -/
def ownCost (n : Node) : Nat :=
  match n.type with
  | .array _ => wordSize + wordSize
  | .bytes | .string => wordSize + wordSize + n.size.getD 0
  | t => if t.isScalar || n.outOfLine then wordSize else 0

/-- The bytes read for all nodes of a forest. -/
def costOf (ns : List Node) : Nat := ((preorderOf ns).map ownCost).sum

/-- The bytes read for a node and all below it. -/
def cost (n : Node) : Nat := n.ownCost + costOf n.children

@[simp] lemma costOf_nil : costOf [] = 0 := rfl

@[simp] lemma costOf_cons (n : Node) (ns : List Node) : costOf (n :: ns) = n.cost + costOf ns := by
  simp [costOf, cost, preorder_eq, Nat.add_assoc]

/-! ### What is reported about a tree -/

/-- Where the value starts, the length of a payload included. -/
def start (n : Node) : Nat := if n.size.isSome then n.offset - wordSize else n.offset

mutual

/-- The notices about a value that has been reached. An array reports after its elements, and
these do not report how they were reached; the members of a row do. -/
def trail : Node → List Notice
  | ⟨.array t, offset, _, _, _, children⟩ =>
    trailOf false children ++ [.arrayLocated (.array t) offset children.length]
  | ⟨_, _, _, _, _, children⟩ => trailOf true children

/-- The notices about a row of values; `slots` says that each is reached through a slot. -/
def trailOf (slots : Bool) : List Node → List Notice
  | [] => []
  | c :: cs =>
    (if slots && c.outOfLine then [.followed c.type c.start] else []) ++ c.trail ++
      trailOf slots cs

end

/-- The notices about a value and the way to it. -/
def slotTrail (n : Node) : List Notice :=
  (if n.outOfLine then [.followed n.type n.start] else []) ++ n.trail

@[simp] lemma trailOf_nil (slots : Bool) : trailOf slots [] = [] := rfl

@[simp] lemma trailOf_true_cons (n : Node) (ns : List Node) :
    trailOf true (n :: ns) = n.slotTrail ++ trailOf true ns := by
  simp [trailOf, slotTrail]

@[simp] lemma trailOf_false_cons (n : Node) (ns : List Node) :
    trailOf false (n :: ns) = n.trail ++ trailOf false ns := by
  simp [trailOf]

lemma trailOf_true_eq_nil {ns : List Node} (h : ∀ c ∈ ns, c.slotTrail = []) :
    trailOf true ns = [] := by
  induction ns with
  | nil => rfl
  | cons n ns ih => simp [h n, ih fun c hc => h c (by simp [hc])]

lemma trailOf_false_eq_nil {ns : List Node} (h : ∀ c ∈ ns, c.trail = []) :
    trailOf false ns = [] := by
  induction ns with
  | nil => rfl
  | cons n ns ih => simp [h n, ih fun c hc => h c (by simp [hc])]

end AbiSpan.Node
