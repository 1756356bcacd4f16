import Pushdown.Condition.Comparator
import Pushdown.Condition.Predicate
import Pushdown.Text.Outline

/-! # Outlines of conditions

The outlines of values, predicates and comparators.
-/

namespace Pushdown

def Value.outline : Value → String
  | null => "Null"
  | bool b => Outline.call "Bool" [truthWord b]
  | int n => Outline.call "Int" [toString n.toInt]
  | float x => Outline.call "Float" [x.text]
  | text s => Outline.call "Text" [Outline.quoted s]

namespace ColumnTest

def constructorName : ColumnTest → String
  | eq _ => "Eq"
  | ne _ => "Ne"
  | lt _ => "Lt"
  | lte _ => "Lte"
  | gt _ => "Gt"
  | gte _ => "Gte"
  | isIn _ => "In"
  | notIn _ => "NotIn"
  | isNull => "IsNull"
  | isNotNull => "IsNotNull"
  | startsWith _ => "StartsWith"
  | endsWith _ => "EndsWith"
  | contains _ => "Contains"
  | between .. => "Between"
  | notBetween .. => "NotBetween"

def outline (test : ColumnTest) : String :=
  let name := test.constructorName
  match test with
  | eq v | ne v | lt v | lte v | gt v | gte v => Outline.call name [v.outline]
  | isIn vs | notIn vs => Outline.call name [Outline.list (vs.map Value.outline)]
  | isNull | isNotNull => name
  | startsWith s | endsWith s | contains s => Outline.call name [Outline.quoted s]
  | between start last i | notBetween start last i =>
    Outline.record name
      [("start", start.outline), ("end", last.outline), ("inclusion", i.name)]

end ColumnTest

def ColumnCondition.outline (c : ColumnCondition) : String :=
  Outline.record "FieldPredicate" [("column", Outline.quoted c.column), ("op", c.test.outline)]

def Closure.outlineText : String := "Closure(..)"

namespace Predicate

variable {ρ : Type}

mutual

def outline : Predicate ρ → String
  | always => "True"
  | never => "False"
  | column c => Outline.call "Field" [c.outline]
  | all ps => Outline.call "And" [Outline.list (outlines ps)]
  | any ps => Outline.call "Or" [Outline.list (outlines ps)]
  | not p => Outline.call "Not" [outline p]
  | closure _ => Outline.call "Opaque" [Closure.outlineText]

def outlines : List (Predicate ρ) → List String
  | [] => []
  | p :: ps => outline p :: outlines ps

end

end Predicate

namespace Comparator

variable {ρ : Type}

mutual

def outline : Comparator ρ → String
  | column name direction =>
    Outline.record "Field" [("column", Outline.quoted name), ("direction", direction.name)]
  | natural => "Natural"
  | chain ks => Outline.call "Then" [Outline.list (outlines ks)]
  | closure _ => Outline.call "Opaque" [Closure.outlineText]

def outlines : List (Comparator ρ) → List String
  | [] => []
  | k :: ks => outline k :: outlines ks

end

end Comparator
end Pushdown
