import Pushdown.Text.Runs

/-! # Outlines

An outline is a one-line text that shows the structure of a value, with its constructors and its
named fields.
-/

namespace Pushdown
namespace Outline

def call (name : String) (arguments : List String) : String :=
  name ++ "(" ++ commaList arguments ++ ")"

def list (items : List String) : String := "[" ++ commaList items ++ "]"

def fields (parts : List (String × String)) : String :=
  commaList (parts.map fun p => p.1 ++ ": " ++ p.2)

def record (name : String) (parts : List (String × String)) : String :=
  name ++ " \x7b " ++ fields parts ++ " \x7d"

/-- A record that shows only some of its fields. -/
def partialRecord (name : String) (parts : List (String × String)) : String :=
  name ++ " \x7b " ++ fields parts ++ ", .. \x7d"

def option (item : Option String) : String :=
  match item with
  | none => "None"
  | some s => call "Some" [s]

def hexDigits (n : Nat) : String := String.ofList (Nat.toDigits 16 n)

def quotedChar (c : Char) : String :=
  if c = '"' then "\\\""
  else if c = '\\' then "\\\\"
  else if c = '\n' then "\\n"
  else if c = '\r' then "\\r"
  else if c = '\t' then "\\t"
  else if c.toNat = 0 then "\\0"
  else if c.toNat < 32 ∨ c.toNat = 127 then "\\u\x7b" ++ hexDigits c.toNat ++ "\x7d"
  else c.toString

/-- A text between double quotes; quotes, backslashes and control characters are escaped. -/
def quoted (s : String) : String :=
  "\"" ++ String.join (s.toList.map quotedChar) ++ "\""

def pairs (entries : List (String × String)) : String :=
  "\x7b" ++ fields (entries.map fun e => (quoted e.1, e.2)) ++ "\x7d"

end Outline
end Pushdown
