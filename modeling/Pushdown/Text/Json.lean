import Pushdown.Number.Rounding
import Pushdown.Number.Shortest
import Pushdown.Text.Runs

/-! # JSON

JSON trees, their text, and a reader of that text. A number token is an integer only if it has
neither fraction nor exponent, is not a negated zero and fits into 64 bits; any other is a `real`.
-/

namespace Pushdown

/-- A JSON value. An object keeps its entries in order. -/
inductive Json
  | null
  | bool (b : Bool)
  | integer (n : Int)
  | real (x : Binary64)
  | text (s : String)
  | list (items : List Json)
  | object (entries : List (String × Json))
deriving Inhabited

namespace Json

def field? (j : Json) (name : String) : Option Json :=
  match j with
  | object entries => entries.lookup name
  | _ => none

/-- The constructor `name` of a sum, with its content. -/
def tagged (name : String) (content : Json) : Json := object [(name, content)]

def hexDigit (n : Nat) : Char := (Nat.toDigits 16 n).headD '0'

def escaped (c : Char) : String :=
  if c = '"' then "\\\""
  else if c = '\\' then "\\\\"
  else if c.toNat < 32 then
    "\\u00" ++ String.ofList [hexDigit (c.toNat / 16), hexDigit (c.toNat % 16)]
  else c.toString

def writeText (out s : String) : String :=
  s.foldl (fun out c => out ++ escaped c) (out ++ "\"") ++ "\""

mutual

def writeValue (out : String) : Json → String
  | null => out ++ "null"
  | bool b => out ++ truthWord b
  | integer n => out ++ toString n
  | real x => out ++ if x.isFinite then x.text else "null"
  | text s => writeText out s
  | list [] => out ++ "[]"
  | list (j :: rest) => writeItems (writeValue (out ++ "[") j) rest
  | object [] => out ++ "\x7b\x7d"
  | object (e :: rest) => writeEntries (writeEntry (out ++ "\x7b") e) rest

/-- Puts the items of a list behind those before them, and closes the list. -/
def writeItems (out : String) : List Json → String
  | [] => out ++ "]"
  | j :: rest => writeItems (writeValue (out ++ ",") j) rest

def writeEntries (out : String) : List (String × Json) → String
  | [] => out ++ "\x7d"
  | e :: rest => writeEntries (writeEntry (out ++ ",") e) rest

def writeEntry (out : String) : String × Json → String
  | (name, j) => writeValue (writeText out name ++ ":") j

end

def write (j : Json) : String := writeValue "" j

def isBlank (c : Char) : Bool := c = ' ' || c = '\t' || c = '\n' || c = '\r'

def skipBlanks (cs : List Char) : List Char := cs.dropWhile isBlank

def hexValue? (c : Char) : Option Nat :=
  if c.isDigit then some (c.toNat - '0'.toNat)
  else if 'a' ≤ c ∧ c ≤ 'f' then some (c.toNat - 'a'.toNat + 10)
  else if 'A' ≤ c ∧ c ≤ 'F' then some (c.toNat - 'A'.toNat + 10)
  else none

def hexUnit? : List Char → Option (Nat × List Char)
  | a :: b :: c :: d :: rest => do
    let a ← hexValue? a
    let b ← hexValue? b
    let c ← hexValue? c
    let d ← hexValue? d
    some (((a * 16 + b) * 16 + c) * 16 + d, rest)
  | _ => none

def simpleEscape? (c : Char) : Option Char :=
  match c with
  | '"' => some '"'
  | '\\' => some '\\'
  | '/' => some '/'
  | 'b' => some (Char.ofNat 8)
  | 'f' => some (Char.ofNat 12)
  | 'n' => some '\n'
  | 'r' => some '\r'
  | 't' => some '\t'
  | _ => none

/-- The character behind a backslash and a `u`; a high surrogate needs the low one behind it. -/
def unicodeEscape? (cs : List Char) : Option (Char × List Char) := do
  let (u, rest) ← hexUnit? cs
  if 0xD800 ≤ u ∧ u < 0xDC00 then
    match rest with
    | '\\' :: 'u' :: more =>
      let (v, rest) ← hexUnit? more
      if 0xDC00 ≤ v ∧ v < 0xE000 then
        some (Char.ofNat (0x10000 + (u - 0xD800) * 0x400 + (v - 0xDC00)), rest)
      else none
    | _ => none
  else if 0xDC00 ≤ u ∧ u < 0xE000 then none
  else some (Char.ofNat u, rest)

/-- Reads a text up to its closing quote. `done` holds the characters read, the last first. -/
def readText? : Nat → List Char → List Char → Option (String × List Char)
  | 0, _, _ => none
  | _ + 1, _, [] => none
  | fuel + 1, done, c :: rest =>
    if c = '"' then some (String.ofList done.reverse, rest)
    else if c = '\\' then
      match rest with
      | 'u' :: more =>
        match unicodeEscape? more with
        | some (d, rest) => readText? fuel (d :: done) rest
        | none => none
      | e :: more =>
        match simpleEscape? e with
        | some d => readText? fuel (d :: done) more
        | none => none
      | [] => none
    else if c.toNat < 32 then none
    else readText? fuel (c :: done) rest

def digitsValue (ds : List Char) : Nat := ds.foldl (fun n d => 10 * n + (d.toNat - '0'.toNat)) 0

/-- Keeps leading digits while their value fits into 64 bits; the value, and the digits left. -/
def cappedValue : Nat → List Char → Nat × List Char
  | n, [] => (n, [])
  | n, d :: ds =>
    let next := 10 * n + (d.toNat - '0'.toNat)
    if next < UInt64.size then cappedValue next ds else (n, d :: ds)

/-- A number from its sign, whole digits, fraction digits and exponent. Digits beyond 64 bits count
only by their place. -/
def realOfParts? (negative : Bool) (whole fraction : List Char) (exponent : Int) : Option Json :=
  let (head, dropped) := cappedValue 0 whole
  let (digits, unread) := if dropped.isEmpty then cappedValue head fraction else (head, fraction)
  let place := exponent + dropped.length - ((fraction.length : Int) - unread.length)
  (Binary64.ofDecimal? negative digits place).map real

def readNumber? (cs : List Char) : Option (Json × List Char) := do
  let (negative, cs) := match cs with
    | '-' :: rest => (true, rest)
    | _ => (false, cs)
  let whole := cs.takeWhile Char.isDigit
  let cs := cs.dropWhile Char.isDigit
  if whole.isEmpty || (whole.length > 1 && whole.head? == some '0') then none
  else
    let (fraction?, cs) := match cs with
      | '.' :: rest => (some (rest.takeWhile Char.isDigit), rest.dropWhile Char.isDigit)
      | _ => (none, cs)
    let fraction := fraction?.getD []
    if fraction? == some [] then none
    else
      let exponentPart := match cs with
        | 'e' :: rest => some rest
        | 'E' :: rest => some rest
        | _ => none
      match exponentPart with
      | some rest =>
        let (down, rest) := match rest with
          | '-' :: more => (true, more)
          | '+' :: more => (false, more)
          | _ => (false, rest)
        let ds := rest.takeWhile Char.isDigit
        if ds.isEmpty then none
        else
          let size : Int := digitsValue ds
          let j ← realOfParts? negative whole fraction (if down then -size else size)
          some (j, rest.dropWhile Char.isDigit)
      | none =>
        let n := digitsValue whole
        let isInteger := fraction?.isNone && !(negative && n == 0) &&
          decide (if negative then n ≤ Int64.minValue.toInt.natAbs else n < UInt64.size)
        if isInteger then some (integer (if negative then -n else n), cs)
        else
          let j ← realOfParts? negative whole fraction 0
          some (j, cs)

/-- Later entries of one name replace earlier ones. -/
def addEntry (entries : List (String × Json)) (name : String) (j : Json) : List (String × Json) :=
  entries.filter (fun e => e.1 != name) ++ [(name, j)]

mutual

def readValue? : Nat → List Char → Option (Json × List Char)
  | 0, _ => none
  | fuel + 1, cs =>
    match skipBlanks cs with
    | [] => none
    | '"' :: rest => do
      let (s, rest) ← readText? fuel [] rest
      some (text s, rest)
    | '[' :: rest =>
      match skipBlanks rest with
      | ']' :: rest => some (list [], rest)
      | _ => readItems? fuel [] rest
    | '\x7b' :: rest =>
      match skipBlanks rest with
      | '\x7d' :: rest => some (object [], rest)
      | _ => readEntries? fuel [] rest
    | 'n' :: 'u' :: 'l' :: 'l' :: rest => some (null, rest)
    | 't' :: 'r' :: 'u' :: 'e' :: rest => some (bool true, rest)
    | 'f' :: 'a' :: 'l' :: 's' :: 'e' :: rest => some (bool false, rest)
    | cs => readNumber? cs

/-- The items up to the closing bracket. `done` holds those read, the last first. -/
def readItems? : Nat → List Json → List Char → Option (Json × List Char)
  | 0, _, _ => none
  | fuel + 1, done, cs => do
    let (j, rest) ← readValue? fuel cs
    match skipBlanks rest with
    | ',' :: rest => readItems? fuel (j :: done) rest
    | ']' :: rest => some (list (j :: done).reverse, rest)
    | _ => none

def readEntries? : Nat → List (String × Json) → List Char → Option (Json × List Char)
  | 0, _, _ => none
  | fuel + 1, done, cs =>
    match skipBlanks cs with
    | '"' :: rest => do
      let (name, rest) ← readText? fuel [] rest
      match skipBlanks rest with
      | ':' :: rest =>
        let (j, rest) ← readValue? fuel rest
        match skipBlanks rest with
        | ',' :: rest => readEntries? fuel (addEntry done name j) rest
        | '\x7d' :: rest => some (object (addEntry done name j), rest)
        | _ => none
      | _ => none
    | _ => none

end

def read? (s : String) : Option Json :=
  let cs := s.toList
  match readValue? (2 * cs.length + 2) cs with
  | some (j, rest) => if (skipBlanks rest).isEmpty then some j else none
  | none => none

end Json
end Pushdown
