/-!
Blanks between the parts of JSON text.
-/

namespace AbiSpan.Json.Reader

def isBlank (c : Char) : Bool := c == ' ' || c == '\t' || c == '\n' || c == '\r'

def skipBlanks (cs : List Char) : List Char := cs.dropWhile isBlank

end AbiSpan.Json.Reader
