import Pushdown.Condition.Predicate
import Pushdown.Query.Criteria
import Pushdown.Error
import Pushdown.Query.Like

/-! # Lowering

Predicates and comparators are lowered into the form that queries take. Parameters are numbered on
from the ones that criteria already have, and come back as a list: a caller adds them only after
the whole argument has been lowered, so a failure leaves no trace.
-/

namespace Pushdown
namespace Lowering

variable {ρ : Type}

def checkColumn (E : Entity ρ) (column : String) : Except LoweringError Unit :=
  if E.hasColumn column then .ok () else .error (.unknownColumn E.name column)

/-- The values that a condition binds: its operands, or the pattern for its text. -/
def boundValues (c : ColumnCondition) : Except LoweringError (List Value) :=
  let literal (v : Value) :=
    if v.isNull then .error (.nullLiteral c.column c.test.name) else .ok [v]
  let literals (vs : List Value) :=
    if vs.isEmpty then .error (.emptyList c.column c.test.name)
    else if vs.any Value.isNull then .error (.nullLiteral c.column c.test.name)
    else .ok vs
  let bounds (start last : Value) :=
    if start.isNull || last.isNull then .error (.nullBound c.column) else .ok [start, last]
  match c.test with
  | .eq v | .ne v | .lt v | .lte v | .gt v | .gte v => literal v
  | .isIn vs | .notIn vs => literals vs
  | .isNull | .isNotNull => .ok []
  | .startsWith s => .ok [.text (Like.startingWith s)]
  | .endsWith s => .ok [.text (Like.endingWith s)]
  | .contains s => .ok [.text (Like.containing s)]
  | .between start last _ | .notBetween start last _ => bounds start last

def parameterName (n : Nat) : String := ":p" ++ toString n

/-- Binds the values to the parameters behind the first `used` ones. -/
def bind : Nat → List Value → List Binding
  | _, [] => []
  | used, v :: vs => ⟨parameterName (used + 1), v⟩ :: bind (used + 1) vs

def lowerCondition (E : Entity ρ) (used : Nat) (c : ColumnCondition) :
    Except LoweringError (Restriction × List Binding) := do
  checkColumn E c.column
  let values ← boundValues c
  let bindings := bind used values
  return (.compare c (bindings.map Binding.name), bindings)

mutual

/-- The restriction that states `p`, and the parameters it binds behind the first `used` ones. -/
def lower (E : Entity ρ) (used : Nat) :
    Predicate ρ → Except LoweringError (Restriction × List Binding)
  | .always => .ok (.always, [])
  | .never => .ok (.never, [])
  | .column c => lowerCondition E used c
  | .all ps => (lowerList E used ps).map fun r => (.all r.1, r.2)
  | .any ps => (lowerList E used ps).map fun r => (.any r.1, r.2)
  | .not p => (lower E used p).map fun r => (.not r.1, r.2)
  | .closure _ => .error .closure

def lowerList (E : Entity ρ) (used : Nat) :
    List (Predicate ρ) → Except LoweringError (List Restriction × List Binding)
  | [] => .ok ([], [])
  | p :: ps => do
    let (r, bindings) ← lower E used p
    let (rs, more) ← lowerList E (used + bindings.length) ps
    return (r :: rs, bindings ++ more)

end

mutual

/-- The order terms of a comparator. The natural order is the ascending primary key. -/
def orderTerms (E : Entity ρ) : Comparator ρ → Except LoweringError (List OrderTerm)
  | .column name direction => (checkColumn E name).map fun _ => [⟨name, direction⟩]
  | .natural => .ok [⟨E.primaryKey, .ascending⟩]
  | .chain keys => orderTermsOfChain E keys
  | .closure _ => .error .closure

def orderTermsOfChain (E : Entity ρ) :
    List (Comparator ρ) → Except LoweringError (List OrderTerm)
  | [] => .ok []
  | key :: keys => do
    let terms ← orderTerms E key
    let more ← orderTermsOfChain E keys
    return terms ++ more

end

end Lowering
end Pushdown
