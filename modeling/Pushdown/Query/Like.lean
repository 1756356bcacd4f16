/-! # LIKE patterns

Patterns have the escape character `\`: `%` stands for any run of characters, `_` for any one, and
a backslash takes the next character literally.
-/

namespace Pushdown
namespace Like

def isSpecial (c : Char) : Bool := c = '\\' || c = '%' || c = '_'

def escapeChars : List Char → List Char
  | [] => []
  | c :: cs => if isSpecial c then '\\' :: c :: escapeChars cs else c :: escapeChars cs

def escape (s : String) : String := String.ofList (escapeChars s.toList)

def startingWith (s : String) : String := escape s ++ "%"

def endingWith (s : String) : String := "%" ++ escape s

def containing (s : String) : String := "%" ++ escape s ++ "%"

end Like
end Pushdown
