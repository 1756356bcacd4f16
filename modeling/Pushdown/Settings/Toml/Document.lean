import Pushdown.Settings.Toml.Scalar

/-! # TOML documents

A TOML document is a list of statements: table headers, and keys with values. Of the values only
booleans, arrays and inline tables are told apart; any other scalar is checked and then forgotten.
-/

namespace Pushdown
namespace Toml

/-- A value, as far as values are told apart. -/
inductive Element
  | bool (b : Bool)
  | scalar
  | array (items : List Element)
  | table (entries : List (List String × Element))

inductive Statement
  | entry (path : List String) (value : Element)
  | header (path : List String)
  | arrayHeader (path : List String)

def skipVoid? : Bool → List Char → Option (List Char)
  | _, [] => some []
  | inComment, c :: cs =>
    if c = '\n' then skipVoid? false cs
    else if c = '\r' then
      match cs with
      | '\n' :: rest => skipVoid? false rest
      | _ => none
    else if inComment then if isControl c then none else skipVoid? true cs
    else if isBlank c then skipVoid? false cs
    else if c = '#' then skipVoid? true cs
    else some (c :: cs)

def lineEnd? : Bool → List Char → Option (List Char)
  | _, [] => some []
  | inComment, c :: cs =>
    if c = '\n' then some cs
    else if c = '\r' then
      match cs with
      | '\n' :: rest => some rest
      | _ => none
    else if inComment then if isControl c then none else lineEnd? true cs
    else if isBlank c then lineEnd? false cs
    else if c = '#' then lineEnd? true cs
    else none

def skipBlanks (cs : List Char) : List Char := cs.dropWhile isBlank

/-- One part of a key: bare, or quoted in one of two ways. -/
def keyPart? (cs : List Char) : Option (String × List Char) :=
  match cs with
  | [] => none
  | c :: rest =>
    if c = '"' then readBasic? (rest.length + 1) [] rest
    else if c = apostrophe then readLiteral? [] rest
    else
      let bare := cs.takeWhile isBareKeyChar
      if bare.isEmpty then none else some (String.ofList bare, cs.dropWhile isBareKeyChar)

/-- Values stand in no more than `deepest` arrays and inline tables, and a key has no more parts. -/
def deepest : Nat := 80

/-- At most `n` parts of a key, with dots between them. -/
def keyParts? : Nat → List Char → Option (List String × List Char)
  | 0, _ => none
  | n + 1, cs => do
    let (part, rest) ← keyPart? (skipBlanks cs)
    match skipBlanks rest with
    | '.' :: rest =>
      let (parts, rest) ← keyParts? n rest
      some (part :: parts, rest)
    | rest => some ([part], rest)

def readKey? (cs : List Char) : Option (List String × List Char) := keyParts? deepest cs

/-- No key names the same place as another one, or a place inside it. -/
def pathsApart : List (List String) → Bool
  | [] => true
  | p :: ps => ps.all (fun q => !p.isPrefixOf q && !q.isPrefixOf p) && pathsApart ps

/-- A token that is neither quoted nor bracketed. A date may be followed by a blank and a time. -/
def readToken? (cs : List Char) : Option (Element × List Char) :=
  let token := cs.takeWhile isTokenChar
  let rest := cs.dropWhile isTokenChar
  if token = "true".toList then some (.bool true, rest)
  else if token = "false".toList then some (.bool false, rest)
  else
    match rest with
    | ' ' :: more =>
      let clock := more.takeWhile isTokenChar
      if isDate token && !clock.isEmpty then
        if isDateTime (token ++ ' ' :: clock) then some (.scalar, more.dropWhile isTokenChar)
        else none
      else if isScalar token then some (.scalar, rest)
      else none
    | _ => if isScalar token then some (.scalar, rest) else none

def readString? (cs : List Char) : Option (List Char) :=
  let fuel := cs.length + 1
  match cs with
  | '"' :: '"' :: '"' :: rest => skipMultiline? '"' true fuel rest
  | c :: rest =>
    if c = '"' then (readBasic? fuel [] rest).map Prod.snd
    else if rest.take 2 = [apostrophe, apostrophe] then
      skipMultiline? apostrophe false fuel (rest.drop 2)
    else (readLiteral? [] rest).map Prod.snd
  | [] => none

mutual

/-- A value around which `depth` more brackets may stand. -/
def readElement? (depth : Nat) : Nat → List Char → Option (Element × List Char)
  | 0, _ => none
  | fuel + 1, cs =>
    match cs, depth with
    | [], _ => none
    | '[' :: rest, depth + 1 => readItems? depth fuel [] rest
    | '\x7b' :: rest, depth + 1 => readEntries? depth fuel [] rest
    | c :: _, _ =>
      if c = '"' || c = apostrophe then (readString? cs).map fun rest => (.scalar, rest)
      else readToken? cs

/-- The items of an array up to its closing bracket; a comma may follow the last one. -/
def readItems? (depth : Nat) : Nat → List Element → List Char → Option (Element × List Char)
  | 0, _, _ => none
  | fuel + 1, done, cs => do
    match ← skipVoid? false cs with
    | ']' :: rest => some (.array done.reverse, rest)
    | cs =>
      let (item, rest) ← readElement? depth fuel cs
      match ← skipVoid? false rest with
      | ',' :: rest => readItems? depth fuel (item :: done) rest
      | ']' :: rest => some (.array (item :: done).reverse, rest)
      | _ => none

/-- The entries of an inline table up to its closing brace; a comma may follow the last one. A line
may end anywhere but inside a key. -/
def readEntries? (depth : Nat) :
    Nat → List (List String × Element) → List Char → Option (Element × List Char)
  | 0, _, _ => none
  | fuel + 1, done, cs => do
    let close (entries : List (List String × Element)) (rest : List Char) :=
      if pathsApart (entries.map Prod.fst) then some (Element.table entries.reverse, rest) else none
    match ← skipVoid? false cs with
    | '\x7d' :: rest => close done rest
    | cs =>
      let (path, rest) ← readKey? cs
      match ← skipVoid? false rest with
      | '=' :: rest =>
        let (value, rest) ← readElement? depth fuel (← skipVoid? false rest)
        match ← skipVoid? false rest with
        | ',' :: rest => readEntries? depth fuel ((path, value) :: done) rest
        | '\x7d' :: rest => close ((path, value) :: done) rest
        | _ => none
      | _ => none

end

def readStatement? (cs : List Char) : Option (Statement × List Char) := do
  match cs with
  | '[' :: '[' :: rest =>
    let (path, rest) ← readKey? rest
    match rest with
    | ']' :: ']' :: rest => some (.arrayHeader path, rest)
    | _ => none
  | '[' :: rest =>
    let (path, rest) ← readKey? rest
    match rest with
    | ']' :: rest => some (.header path, rest)
    | _ => none
  | cs =>
    let (path, rest) ← readKey? cs
    match rest with
    | '=' :: rest =>
      let (value, rest) ← readElement? deepest (2 * cs.length + 2) (skipBlanks rest)
      some (.entry path value, rest)
    | _ => none

def readStatements? : Nat → List Char → Option (List Statement)
  | 0, _ => none
  | fuel + 1, cs => do
    match ← skipVoid? false cs with
    | [] => some []
    | cs =>
      let (statement, rest) ← readStatement? cs
      let rest ← lineEnd? false rest
      let statements ← readStatements? fuel rest
      some (statement :: statements)

def read? (text : String) : Option (List Statement) :=
  let cs := text.toList
  let cs := if cs.head? == some (Char.ofNat 0xFEFF) then cs.drop 1 else cs
  readStatements? (cs.length + 1) cs

end Toml
end Pushdown
