import AbiSpan.Json

/-!
Writing JSON text: no blanks, keys in the order they stand, and in strings only quotes,
backslashes and control characters escaped.
-/

namespace AbiSpan.Json.Writer

def hexDigit (n : Nat) : Char := if n < 10 then Char.ofNat (48 + n) else Char.ofNat (87 + n)

def escape (c : Char) : List Char :=
  match c with
  | '"' => ['\\', '"']
  | '\\' => ['\\', '\\']
  | '\x08' => ['\\', 'b']
  | '\x0c' => ['\\', 'f']
  | '\n' => ['\\', 'n']
  | '\r' => ['\\', 'r']
  | '\t' => ['\\', 't']
  | c =>
    if c.toNat < 0x20 then ['\\', 'u', '0', '0', hexDigit (c.toNat / 16), hexDigit (c.toNat % 16)]
    else [c]

def quote (s : String) : List Char := '"' :: (s.toList.flatMap escape ++ ['"'])

mutual

def chars : Json → List Char
  | .null | .garbled => "null".toList
  | .bool true => "true".toList
  | .bool false => "false".toList
  | .natural n => (toString n).toList
  | .number text => text.toList
  | .string s => quote s
  | .array [] => ['[', ']']
  | .array (j :: js) => '[' :: (chars j ++ itemChars js)
  | .object [] => ['\x7b', '\x7d']
  | .object ((k, j) :: ps) => '\x7b' :: (quote k ++ ':' :: (chars j ++ pairChars ps))

/-- Further items of an array, and its end. -/
def itemChars : List Json → List Char
  | [] => [']']
  | j :: js => ',' :: (chars j ++ itemChars js)

/-- Further pairs of an object, and its end. -/
def pairChars : List (String × Json) → List Char
  | [] => ['\x7d']
  | (k, j) :: ps => ',' :: (quote k ++ ':' :: (chars j ++ pairChars ps))

end

end AbiSpan.Json.Writer

namespace AbiSpan

def Json.render (j : Json) : String := String.ofList (Json.Writer.chars j)

end AbiSpan
