import Pushdown.Merge.Strategy

/-! # Strategy registry

A registry holds strategies by the kind of operation under which they are registered. Of those only
the ones that accept the kind are tried, in the order of registration.
-/

namespace Pushdown

/-- Strategies by kind, for the criteria pass and for the query pass. -/
structure Registry (ρ : Type) where
  criteria : Entries Kind (List (Strategy ρ Criteria))
  query : Entries Kind (List (Strategy ρ Query))

namespace Registry

variable {ρ : Type}

def empty : Registry ρ := ⟨.empty, .empty⟩

def addCriteria (r : Registry ρ) (kind : Kind) (s : Strategy ρ Criteria) : Registry ρ :=
  { r with criteria := r.criteria.adjust kind [] (· ++ [s]) }

def addQuery (r : Registry ρ) (kind : Kind) (s : Strategy ρ Query) : Registry ρ :=
  { r with query := r.query.adjust kind [] (· ++ [s]) }

/-- Filters, sorts and DISTINCT into the criteria; skips and limits into the query. -/
def standard (E : Entity ρ) : Registry ρ :=
  (((((empty.addCriteria .filter (.pushFilter E)).addCriteria .sorted (.pushSort E)).addCriteria
    .distinct .pushDistinct).addQuery .skip .pushSkip).addQuery .limit .pushLimit)

def registered {σ : Type} (m : Entries Kind (List (Strategy ρ σ))) (kind : Kind) :
    List (Strategy ρ σ) :=
  ((m.find? kind).getD []).filter fun s => s.accepts kind

def criteriaFor (r : Registry ρ) (kind : Kind) : List (Strategy ρ Criteria) :=
  registered r.criteria kind

def queryFor (r : Registry ρ) (kind : Kind) : List (Strategy ρ Query) := registered r.query kind

def hasStrategy (r : Registry ρ) (kind : Kind) : Bool :=
  r.criteria.contains kind || r.query.contains kind

end Registry
end Pushdown
