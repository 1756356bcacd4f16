import Pushdown.Condition.Comparator
import Pushdown.Query.Restriction

/-! # Criteria

Criteria say what a query selects, before any window is laid over the result.
-/

namespace Pushdown

inductive JoinType
  | inner
  | left
  | right
deriving DecidableEq, Inhabited

namespace JoinType

def all : List JoinType := [inner, left, right]

def standard : JoinType := left

def display : JoinType → String
  | inner => "INNER"
  | left => "LEFT"
  | right => "RIGHT"

def name : JoinType → String
  | inner => "Inner"
  | left => "Left"
  | right => "Right"

end JoinType

structure Fetch where
  column : String
  join : JoinType
deriving DecidableEq

/-- Whole rows, some columns of them, or their number. -/
inductive Selection
  | root
  | columns (names : List String)
  | count
deriving DecidableEq

structure OrderTerm where
  column : String
  direction : Direction
deriving DecidableEq

structure Binding where
  name : String
  value : Value
deriving DecidableEq

/-- What a query selects from the rows of `root`. Once `windowed`, a cut lies over the rows, and
nothing more may change which rows come or in what order. -/
structure Criteria where
  root : String
  shortName : String
  selection : Selection
  fetches : List Fetch
  restriction? : Option Restriction
  order : List OrderTerm
  distinct : Bool
  parameters : List Binding
  windowed : Bool

namespace Criteria

/-- The first character of the root, in lower case if it is an ASCII letter. -/
def shortNameOf (root : String) : String :=
  match root.toList with
  | [] => "e"
  | c :: _ => c.toLower.toString

def new (root : String) : Criteria :=
  { root, shortName := shortNameOf root, selection := .root, fetches := [], restriction? := none
    order := [], distinct := false, parameters := [], windowed := false }

def select (c : Criteria) (s : Selection) : Criteria := { c with selection := s }

def fetch (c : Criteria) (column : String) (join : JoinType) : Criteria :=
  { c with fetches := c.fetches ++ [⟨column, join⟩] }

def restrict (c : Criteria) (r : Restriction) (bindings : List Binding) : Criteria :=
  { c with
    restriction? := some (match c.restriction? with | some old => old.and r | none => r)
    parameters := c.parameters ++ bindings }

/-- A later sort comes first: the terms in place decide between rows that `terms` leave tied. -/
def prependOrder (c : Criteria) (terms : List OrderTerm) : Criteria :=
  { c with order := terms ++ c.order }

def setDistinct (c : Criteria) (b : Bool) : Criteria := { c with distinct := b }

/-- From here on a window cuts the result, so nothing more may be pushed beneath it. -/
def markWindowed (c : Criteria) : Criteria := { c with windowed := true }

def toCount (c : Criteria) : Criteria := c.select .count

def selectionText (c : Criteria) : String :=
  let distinct := if c.distinct then "DISTINCT " else ""
  match c.selection with
  | .root => "SELECT " ++ distinct ++ c.shortName
  | .count => "SELECT COUNT(" ++ distinct ++ c.shortName ++ ")"
  | .columns names =>
    "SELECT " ++ distinct ++ commaList (names.map fun n => c.shortName ++ "." ++ n)

def fetchText (c : Criteria) (f : Fetch) : String :=
  " " ++ f.join.display ++ " JOIN FETCH " ++ c.shortName ++ "." ++ f.column

def orderText (c : Criteria) : String :=
  if c.order.isEmpty || c.selection == .count then ""
  else
    " ORDER BY " ++
      commaList (c.order.map fun t => c.shortName ++ "." ++ t.column ++ " " ++ t.direction.display)

def text (c : Criteria) : String :=
  c.selectionText ++ " FROM " ++ c.root ++ " " ++ c.shortName ++
    String.join (c.fetches.map c.fetchText) ++
    (match c.restriction? with | some r => " WHERE " ++ r.text c.shortName | none => "") ++
    c.orderText

end Criteria
end Pushdown
