import Pushdown.Condition.ColumnTest

/-! # Restrictions

A restriction is a condition in the form a query states it, with a parameter name for each operand.
The operands stay at hand, so a store can also evaluate the restriction over its rows.
-/

namespace Pushdown

inductive Restriction
  | always
  | never
  | compare (condition : ColumnCondition) (parameters : List String)
  | all (rs : List Restriction)
  | any (rs : List Restriction)
  | not (r : Restriction)

namespace Restriction

def conjuncts : Restriction → List Restriction
  | all rs => rs
  | r => [r]

/-- A conjunction of the members of both sides; members of members stay as they are. -/
def and (r s : Restriction) : Restriction := all (r.conjuncts ++ s.conjuncts)

/-- A conjunction that leaves a single member bare. -/
def ofConjuncts : List Restriction → Restriction
  | [] => always
  | [r] => r
  | rs => all rs

variable {ρ : Type}

mutual

def holds (E : Entity ρ) (row : ρ) : Restriction → Bool
  | always => true
  | never => false
  | compare c _ => c.holds E row
  | all rs => allHold E row rs
  | any rs => anyHolds E row rs
  | not r => !holds E row r

def allHold (E : Entity ρ) (row : ρ) : List Restriction → Bool
  | [] => true
  | r :: rs => holds E row r && allHold E row rs

def anyHolds (E : Entity ρ) (row : ρ) : List Restriction → Bool
  | [] => false
  | r :: rs => holds E row r || anyHolds E row rs

end

theorem allHold_eq (E : Entity ρ) (row : ρ) (rs : List Restriction) :
    allHold E row rs = rs.all fun r => r.holds E row := by
  induction rs with
  | nil => rfl
  | cons r rs ih => simp [allHold, ih]

theorem anyHolds_eq (E : Entity ρ) (row : ρ) (rs : List Restriction) :
    anyHolds E row rs = rs.any fun r => r.holds E row := by
  induction rs with
  | nil => rfl
  | cons r rs ih => simp [anyHolds, ih]

/-- One comparison, with the column qualified and parameter names for the operands. A range becomes
two comparisons with its ends. -/
def comparisonText (owner : String) (c : ColumnCondition) (parameters : List String) : String :=
  let column := owner ++ "." ++ c.column
  let parameter (i : Nat) := parameters[i]?.getD "?"
  let compared (sign : String) := column ++ " " ++ sign ++ " " ++ parameter 0
  let oneOf (word : String) := column ++ " " ++ word ++ " (" ++ commaList parameters ++ ")"
  let like := column ++ " LIKE " ++ parameter 0 ++ " ESCAPE '\\'"
  let range (lower junction upper : String) :=
    "(" ++ column ++ " " ++ lower ++ " " ++ parameter 0 ++ " " ++ junction ++ " " ++
      column ++ " " ++ upper ++ " " ++ parameter 1 ++ ")"
  match c.test with
  | .eq _ => compared "="
  | .ne _ => compared "<>"
  | .lt _ => compared "<"
  | .lte _ => compared "<="
  | .gt _ => compared ">"
  | .gte _ => compared ">="
  | .isIn _ => oneOf "IN"
  | .notIn _ => oneOf "NOT IN"
  | .isNull => column ++ " IS NULL"
  | .isNotNull => column ++ " IS NOT NULL"
  | .startsWith _ | .endsWith _ | .contains _ => like
  | .between _ _ i =>
    range (if i.includesStart then ">=" else ">") "AND" (if i.includesEnd then "<=" else "<")
  | .notBetween _ _ i =>
    range (if i.includesStart then "<" else "<=") "OR" (if i.includesEnd then ">" else ">=")

mutual

def text (owner : String) : Restriction → String
  | always => "1 = 1"
  | never => "1 = 0"
  | compare c parameters => comparisonText owner c parameters
  | all rs => "(" ++ joined " AND " (texts owner rs) ++ ")"
  | any rs => "(" ++ joined " OR " (texts owner rs) ++ ")"
  | not r => "NOT " ++ text owner r

def texts (owner : String) : List Restriction → List String
  | [] => []
  | r :: rs => text owner r :: texts owner rs

end

theorem texts_eq (owner : String) (rs : List Restriction) :
    texts owner rs = rs.map (text owner) := by
  induction rs with
  | nil => rfl
  | cons r rs ih => simp [texts, ih]

end Restriction
end Pushdown
