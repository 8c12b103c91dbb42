/-!
What is expected at each place of a JSON text.

Only one expectation changes how a text is read: where a byte string of a known length may stand
as an array of numbers, the array ends as soon as it is long enough.
-/

namespace AbiSpan.Json

inductive Shape where
  | any
  /-- An array here holds so many numbers below 256. -/
  | fixedBytes (length : Nat)
  | list (item : Shape)
  /-- An object with these keys, or an array with their values in this order. -/
  | record (members : List (String × Shape))
deriving Inhabited

namespace Shape

/-- What is expected under a key of an object. A key that cannot be read has no value. -/
def ofKey : Shape → Option String → Shape
  | .record members, some key => (members.lookup key).getD .any
  | _, _ => .any

/-- What is expected at a place of an array. -/
def ofPlace : Shape → Nat → Shape
  | .list item, _ => item
  | .record members, i => (members[i]?.map (·.2)).getD .any
  | _, _ => .any

@[simp] theorem ofKey_any (key : Option String) : ofKey .any key = .any := by
  cases key <;> rfl

@[simp] theorem ofPlace_any (i : Nat) : ofPlace .any i = .any := rfl

end Shape

end AbiSpan.Json
