import Pushdown.Condition.Comparator
import Pushdown.Outline.Conditions
import Pushdown.Query.Criteria
import Pushdown.Text.Json

/-! # Snapshots of values

Values and conditions as JSON trees, and back. A constructor without content is its name alone; one
with content is an object with the name as its only key. A reader also takes the object form, with
null for content, of a constructor that has none.
-/

namespace Pushdown

/-- Reads a constructor without content: its name, or its name over null. -/
def Json.constant? : Json → Option String
  | text name => some name
  | object [(name, null)] => some name
  | _ => none

def Value.snapshot : Value → Json
  | null => .text "Null"
  | bool b => .tagged "Bool" (.bool b)
  | int n => .tagged "Int" (.integer n.toInt)
  | float x => .tagged "Float" (.real x)
  | text s => .tagged "Text" (.text s)

def Value.ofInt? (n : Int) : Option Value :=
  if Int64.minValue.toInt ≤ n ∧ n ≤ Int64.maxValue.toInt then some (.int (Int64.ofInt n)) else none

/-- Any JSON number will do for a float; an integer is rounded to the nearest one. -/
def Value.ofSnapshot? : Json → Option Value
  | .object [("Bool", .bool b)] => some (.bool b)
  | .object [("Int", .integer n)] => Value.ofInt? n
  | .object [("Float", .integer n)] => some (.float (.ofInt n))
  | .object [("Float", .real x)] => some (.float x)
  | .object [("Text", .text s)] => some (.text s)
  | j => if j.constant? = some "Null" then some .null else none

def Inclusion.snapshot (i : Inclusion) : Json := .text i.name

def Inclusion.ofSnapshot? (j : Json) : Option Inclusion :=
  j.constant?.bind fun name => Inclusion.all.find? fun i => i.name == name

def Direction.snapshot (d : Direction) : Json := .text d.name

def Direction.ofSnapshot? (j : Json) : Option Direction :=
  j.constant?.bind fun name => Direction.all.find? fun d => d.name == name

def JoinType.snapshot (t : JoinType) : Json := .text t.name

def JoinType.ofSnapshot? (j : Json) : Option JoinType :=
  j.constant?.bind fun name => JoinType.all.find? fun t => t.name == name

def ColumnTest.snapshot (test : ColumnTest) : Json :=
  let tagged := Json.tagged test.constructorName
  match test with
  | eq v | ne v | lt v | lte v | gt v | gte v => tagged v.snapshot
  | isIn vs | notIn vs => tagged (.list (vs.map Value.snapshot))
  | isNull | isNotNull => .text test.constructorName
  | startsWith s | endsWith s | contains s => tagged (.text s)
  | between start last i | notBetween start last i =>
    tagged (.object
      [("start", start.snapshot), ("end", last.snapshot), ("inclusion", i.snapshot)])

def ColumnCondition.snapshot (c : ColumnCondition) : Json :=
  .object [("column", .text c.column), ("op", c.test.snapshot)]

end Pushdown
