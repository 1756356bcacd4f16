/-! # Steps

What can happen while rows are pulled one by one: an observer visits a row, or a row is handed out.
-/

namespace Pushdown

/-- Someone who looks at passing rows and changes nothing. -/
structure Observer where
  identity : Nat
  label : String
deriving DecidableEq

def Observer.same (a b : Observer) : Bool := a.identity == b.identity

structure Visit (ρ : Type) where
  observer : Observer
  row : ρ
deriving DecidableEq

/-- One thing that happens while rows are pulled. -/
inductive Step (ρ : Type)
  | visit (v : Visit ρ)
  | row (r : ρ)
deriving DecidableEq

namespace Step

variable {ρ : Type}

def row? : Step ρ → Option ρ
  | row r => some r
  | visit _ => none

def visit? : Step ρ → Option (Visit ρ)
  | visit v => some v
  | row _ => none

end Step
end Pushdown
