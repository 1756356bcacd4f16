import Pushdown.Pipeline.Basic
import Pushdown.Pipeline.Fusion

/-! # Optimization

Operations are simplified before they are merged: a terminal operation that stops early says so by
a limit, and neighbours of one kind are fused until no more of them are left.
-/

namespace Pushdown

structure OptimizerSettings where
  terminal : Bool
  squash : Bool
deriving DecidableEq

namespace OptimizerSettings

def standard : OptimizerSettings := ⟨true, true⟩

def disabled : OptimizerSettings := ⟨false, false⟩

end OptimizerSettings

namespace Operation

variable {ρ : Type}

/-- The operations that bring a flow down to the one row a terminal operation looks for: the first
row, the first match, or the first counterexample. -/
def shortCircuit (E : Entity ρ) : Terminal ρ → List (Operation ρ)
  | .findFirst | .findAny => [limit 1]
  | .anyMatch p | .noneMatch p => [filter E p, limit 1]
  | .allMatch p => [filter E (.not p), limit 1]
  | _ => []

def squashOnce (E : Entity ρ) (ops : List (Operation ρ)) : List (Operation ρ) :=
  let ops := (Fusion.filters E).squash ops
  let ops := (Fusion.sorts E).squash ops
  let ops := collapseDistinct ops
  let ops := Fusion.skips.squash ops
  Fusion.limits.squash ops

/-- Squashes until the operations stop growing fewer: a run that drops out can leave two operations
of one kind side by side. -/
def squashToFixpoint (E : Entity ρ) (ops : List (Operation ρ)) : List (Operation ρ) :=
  let next := squashOnce E ops
  if next.length < ops.length then squashToFixpoint E next else next
termination_by ops.length

def optimize (E : Entity ρ) (settings : OptimizerSettings) (terminal? : Option (Terminal ρ))
    (ops : List (Operation ρ)) : List (Operation ρ) :=
  let ops :=
    match settings.terminal, terminal? with
    | true, some t => ops ++ shortCircuit E t
    | _, _ => ops
  if settings.squash then squashToFixpoint E ops else ops

end Operation

def Pipeline.optimize {ρ : Type} (p : Pipeline ρ) (E : Entity ρ) (settings : OptimizerSettings) :
    Pipeline ρ :=
  { p with operations := Operation.optimize E settings p.terminal? p.operations }

end Pushdown
