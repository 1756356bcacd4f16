import Pushdown.Pipeline.Basic
import Pushdown.Pipeline.Fusion

/-! # Sweeps

A fusion can be carried out on a pipeline in place. The sweep goes over the positions from the last
to the first, as many as there are at the start. It removes each part that it meets and keeps its
value pending, and behind any other operation it inserts what is pending. A position that does not
exist ends it without a result.
-/

namespace Pushdown
namespace Fusion

variable {ρ ν : Type}

/-- Inserts the pending value at a position, unless it is neutral. -/
def insertPending (f : Fusion ρ ν) (pending : ν) (i : Nat) (p : Pipeline ρ) :
    Option (Pipeline ρ) :=
  if f.isNeutral pending then some p else p.insert? i (f.build pending)

/-- What the sweep does at one position. -/
def visit (f : Fusion ρ ν) (pending : ν) (i : Nat) (p : Pipeline ρ) : Option (ν × Pipeline ρ) :=
  match p.operations[i]?.bind f.part? with
  | some v => (p.remove? i).map fun (_, p) => (f.combine v pending, p)
  | none => (f.insertPending pending (i + 1) p).map fun p => (f.neutral, p)

/-- Visits the positions below a bound. What is pending at the end goes to the front. -/
def sweepBelow (f : Fusion ρ ν) (pending : ν) : Nat → Pipeline ρ → Option (Pipeline ρ)
  | 0, p => f.insertPending pending 0 p
  | i + 1, p => (f.visit pending i p).bind fun (pending, p) => sweepBelow f pending i p

def sweep? (f : Fusion ρ ν) (p : Pipeline ρ) : Option (Pipeline ρ) :=
  f.sweepBelow f.neutral p.operations.length p

end Fusion
end Pushdown
