import Pushdown.Condition.Inclusion
import Pushdown.Data.Entity
import Pushdown.Text.Runs

/-! # Column tests

A test compares one cell with operands, and a condition applies a test to a column of a row. Tests
compare strictly, so a test fails wherever its operands do not compare with the cell; a test and
its complement may both fail, but never both hold.
-/

namespace Pushdown

/-- A test of one cell against the operands it carries. -/
inductive ColumnTest
  | eq (v : Value)
  | ne (v : Value)
  | lt (v : Value)
  | lte (v : Value)
  | gt (v : Value)
  | gte (v : Value)
  | isIn (vs : List Value)
  | notIn (vs : List Value)
  | isNull
  | isNotNull
  | startsWith (s : String)
  | endsWith (s : String)
  | contains (s : String)
  | between (start last : Value) (inclusion : Inclusion)
  | notBetween (start last : Value) (inclusion : Inclusion)
deriving DecidableEq

namespace ColumnTest

def name : ColumnTest → String
  | eq _ => "eq"
  | ne _ => "ne"
  | lt _ => "lt"
  | lte _ => "lte"
  | gt _ => "gt"
  | gte _ => "gte"
  | isIn _ => "in"
  | notIn _ => "not_in"
  | isNull => "is_null"
  | isNotNull => "is_not_null"
  | startsWith _ => "starts_with"
  | endsWith _ => "ends_with"
  | contains _ => "contains"
  | between .. => "between"
  | notBetween .. => "not_between"

def holds (test : ColumnTest) (v : Value) : Bool :=
  match test with
  | eq w => v.strictCompare? w == some .eq
  | ne w => v.strictCompare? w == some .lt || v.strictCompare? w == some .gt
  | lt w => v.strictCompare? w == some .lt
  | lte w => v.strictCompare? w == some .lt || v.strictCompare? w == some .eq
  | gt w => v.strictCompare? w == some .gt
  | gte w => v.strictCompare? w == some .gt || v.strictCompare? w == some .eq
  | isIn ws => ws.any fun w => v.strictCompare? w == some .eq
  | notIn ws => !v.isNull &&
      ws.all fun w => v.strictCompare? w == some .lt || v.strictCompare? w == some .gt
  | isNull => v.isNull
  | isNotNull => !v.isNull
  | startsWith s => v.asText?.any fun t => Text.startsWith t s
  | endsWith s => v.asText?.any fun t => Text.endsWith t s
  | contains s => v.asText?.any fun t => Text.contains t s
  | between start last i => i.inRange v start last
  | notBetween start last i => i.notInRange v start last

/-- The test with the same operands and the opposite answer on comparable cells. Tests of text have
none. -/
def complement? : ColumnTest → Option ColumnTest
  | eq v => some (ne v)
  | ne v => some (eq v)
  | lt v => some (gte v)
  | lte v => some (gt v)
  | gt v => some (lte v)
  | gte v => some (lt v)
  | isIn vs => some (notIn vs)
  | notIn vs => some (isIn vs)
  | isNull => some isNotNull
  | isNotNull => some isNull
  | between start last i => some (notBetween start last i)
  | notBetween start last i => some (between start last i)
  | startsWith _ | endsWith _ | contains _ => none

end ColumnTest

structure ColumnCondition where
  column : String
  test : ColumnTest
deriving DecidableEq

namespace ColumnCondition

def holds {ρ : Type} (E : Entity ρ) (c : ColumnCondition) (row : ρ) : Bool :=
  c.test.holds (E.read row c.column)

def valueList (vs : List Value) : String := "(" ++ commaList (vs.map Value.display) ++ ")"

def display (c : ColumnCondition) : String :=
  let compared (sign : String) (v : Value) := c.column ++ " " ++ sign ++ " " ++ v.display
  let like (pattern : String) := c.column ++ " LIKE '" ++ pattern ++ "'"
  let range (word : String) (start last : Value) (i : Inclusion) :=
    c.column ++ " " ++ word ++ " " ++ start.display ++ " AND " ++ last.display ++ " " ++ i.symbol
  match c.test with
  | .eq v => compared "=" v
  | .ne v => compared "<>" v
  | .lt v => compared "<" v
  | .lte v => compared "<=" v
  | .gt v => compared ">" v
  | .gte v => compared ">=" v
  | .isIn vs => c.column ++ " IN " ++ valueList vs
  | .notIn vs => c.column ++ " NOT IN " ++ valueList vs
  | .isNull => c.column ++ " IS NULL"
  | .isNotNull => c.column ++ " IS NOT NULL"
  | .startsWith s => like (s ++ "%")
  | .endsWith s => like ("%" ++ s)
  | .contains s => like ("%" ++ s ++ "%")
  | .between start last i => range "BETWEEN" start last i
  | .notBetween start last i => range "NOT BETWEEN" start last i

end ColumnCondition
end Pushdown
