import AbiSpan.AbiType
import AbiSpan.Fault
import AbiSpan.Span

/-!
Where each part of a value lies in a buffer.

A node stands for one value of a type. Scalars, byte strings and texts have a size; arrays and
tuples have none, and children instead. Offsets count from the start of the whole buffer.
-/

namespace AbiSpan

structure Node where
  type : AbiType
  /-- Where the value starts, or the payload of a value stored out of line. -/
  offset : Nat
  size : Option Nat
  /-- The value is reached through a pointer. -/
  outOfLine : Bool
  /-- The bytes seen there while the tree was made. -/
  value : Option Bytes
  children : List Node
deriving BEq, Inhabited

namespace Node

def child? (n : Node) (i : Nat) : Option Node := n.children[i]?

def span? (n : Node) : Option Span := n.size.map fun size => ⟨n.offset, size⟩

/-- The range of the node, which arrays and tuples do not have. -/
def span (n : Node) : Except QueryFault Span :=
  match n.size with
  | some size => .ok ⟨n.offset, size⟩
  | none => .error (.sizeless n.type.name n.offset)

/-- The bytes of the node in a buffer. -/
def slice? (n : Node) (b : Bytes) : Option Bytes := n.span?.bind (·.slice? b)

mutual

/-- The sized nodes at the ends of the tree, left to right. -/
def leaves : Node → List Node
  | ⟨type, offset, size, outOfLine, value, []⟩ =>
    if size.isSome then [⟨type, offset, size, outOfLine, value, []⟩] else []
  | ⟨_, _, _, _, _, c :: cs⟩ => leavesOf (c :: cs)

def leavesOf : List Node → List Node
  | [] => []
  | c :: cs => c.leaves ++ leavesOf cs

end

theorem leavesOf_eq_flatMap (cs : List Node) : leavesOf cs = cs.flatMap leaves := by
  induction cs with
  | nil => rfl
  | cons c cs ih => simp [leavesOf, ih]

theorem leaves_of_children {n : Node} (h : n.children ≠ []) :
    n.leaves = n.children.flatMap leaves := by
  match n, h with
  | ⟨_, _, _, _, _, c :: cs⟩, _ => rw [leaves, leavesOf_eq_flatMap]

theorem leaves_of_no_children {n : Node} (h : n.children = []) :
    n.leaves = if n.size.isSome then [n] else [] := by
  obtain ⟨type, offset, size, outOfLine, value, children⟩ := n
  cases h
  rw [leaves]

end Node

end AbiSpan
