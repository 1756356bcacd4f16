import Pushdown.Condition.ColumnTest
import Pushdown.Data.Closure

/-! # Predicates

A predicate is a condition on rows. One built from column conditions alone can be pushed down into
a query; one that holds a closure anywhere cannot.
-/

namespace Pushdown

inductive Predicate (ρ : Type)
  | always
  | never
  | column (c : ColumnCondition)
  | all (ps : List (Predicate ρ))
  | any (ps : List (Predicate ρ))
  | not (p : Predicate ρ)
  | closure (f : Closure (ρ → Bool))

namespace Predicate

variable {ρ : Type}

mutual

def test (E : Entity ρ) (row : ρ) : Predicate ρ → Bool
  | always => true
  | never => false
  | column c => c.holds E row
  | all ps => testAll E row ps
  | any ps => testAny E row ps
  | not p => !test E row p
  | closure f => f.fn row

def testAll (E : Entity ρ) (row : ρ) : List (Predicate ρ) → Bool
  | [] => true
  | p :: ps => test E row p && testAll E row ps

def testAny (E : Entity ρ) (row : ρ) : List (Predicate ρ) → Bool
  | [] => false
  | p :: ps => test E row p || testAny E row ps

end

theorem testAll_eq (E : Entity ρ) (row : ρ) (ps : List (Predicate ρ)) :
    testAll E row ps = ps.all fun p => p.test E row := by
  induction ps with
  | nil => rfl
  | cons p ps ih => simp [testAll, ih]

theorem testAny_eq (E : Entity ρ) (row : ρ) (ps : List (Predicate ρ)) :
    testAny E row ps = ps.any fun p => p.test E row := by
  induction ps with
  | nil => rfl
  | cons p ps ih => simp [testAny, ih]

mutual

/-- The members of nested conjunctions, from left to right. -/
def conjuncts : Predicate ρ → List (Predicate ρ)
  | all ps => conjunctsOfAll ps
  | p => [p]

def conjunctsOfAll : List (Predicate ρ) → List (Predicate ρ)
  | [] => []
  | p :: ps => conjuncts p ++ conjunctsOfAll ps

end

theorem conjunctsOfAll_eq (ps : List (Predicate ρ)) : conjunctsOfAll ps = ps.flatMap conjuncts := by
  induction ps with
  | nil => rfl
  | cons p ps ih => simp [conjunctsOfAll, ih]

/-- A conjunction with flat members, also of a single one or none. -/
def and (p q : Predicate ρ) : Predicate ρ := all (p.conjuncts ++ q.conjuncts)

def or (p q : Predicate ρ) : Predicate ρ := any [p, q]

/-- A conjunction that leaves a single member bare. -/
def ofConjuncts : List (Predicate ρ) → Predicate ρ
  | [] => always
  | [p] => p
  | ps => all ps

mutual

/-- Does the predicate hold no closure? -/
def isPushable : Predicate ρ → Bool
  | always | never | column _ => true
  | all ps | any ps => arePushable ps
  | not p => isPushable p
  | closure _ => false

def arePushable : List (Predicate ρ) → Bool
  | [] => true
  | p :: ps => isPushable p && arePushable ps

end

theorem arePushable_eq (ps : List (Predicate ρ)) : arePushable ps = ps.all isPushable := by
  induction ps with
  | nil => rfl
  | cons p ps ih => simp [arePushable, ih]

/-- Negation by structure: a column condition takes the complement of its test if there is one, a
negation loses its sign, and anything else gains one. -/
def negate : Predicate ρ → Predicate ρ
  | always => never
  | never => always
  | not p => p
  | column c =>
    match c.test.complement? with
    | some test => column ⟨c.column, test⟩
    | none => not (column c)
  | p => not p

mutual

/-- Equality of structure, with closures equal if they are the same one. -/
def same : Predicate ρ → Predicate ρ → Bool
  | always, always | never, never => true
  | column c, column d => c == d
  | all ps, all qs | any ps, any qs => sameList ps qs
  | not p, not q => same p q
  | closure f, closure g => f.same g
  | _, _ => false

def sameList : List (Predicate ρ) → List (Predicate ρ) → Bool
  | [], [] => true
  | p :: ps, q :: qs => same p q && sameList ps qs
  | _, _ => false

end

mutual

def display : Predicate ρ → String
  | always => "TRUE"
  | never => "FALSE"
  | column c => c.display
  | all ps => "(" ++ joined " AND " (displayList ps) ++ ")"
  | any ps => "(" ++ joined " OR " (displayList ps) ++ ")"
  | not p => "NOT " ++ display p
  | closure _ => "<opaque>"

def displayList : List (Predicate ρ) → List String
  | [] => []
  | p :: ps => display p :: displayList ps

end

theorem displayList_eq (ps : List (Predicate ρ)) : displayList ps = ps.map display := by
  induction ps with
  | nil => rfl
  | cons p ps ih => simp [displayList, ih]

end Predicate
end Pushdown
