import Pushdown.Merge.Tracker
import Pushdown.Pipeline.Basic

/-! # Ledgers

The marks of a merge pass may also be kept as two sets, the positions to strip and the residuals to
write in, and be carried out on a pipeline in place. A position that enters one of the sets leaves
the other.
-/

namespace Pushdown

/-- The absorbed positions, and what is left of the operations that were absorbed in part. -/
structure Ledger (ρ : Type) where
  removals : Entries Nat Unit
  residuals : Entries Nat (Operation ρ)

namespace Ledger

variable {ρ : Type}

def new : Ledger ρ := ⟨.empty, .empty⟩

def markForRemoval (l : Ledger ρ) (i : Nat) : Ledger ρ :=
  ⟨l.removals.insert i (), l.residuals.erase i⟩

def replaceWith (l : Ledger ρ) (i : Nat) (residual : Operation ρ) : Ledger ρ :=
  ⟨l.removals.erase i, l.residuals.insert i residual⟩

def replaceEach? : List (Nat × Operation ρ) → Pipeline ρ → Option (Pipeline ρ)
  | [], p => some p
  | (i, op) :: rest, p => (p.replace? i op).bind fun (_, p) => replaceEach? rest p

def removeEach? : List Nat → Pipeline ρ → Option (Pipeline ρ)
  | [], p => some p
  | i :: rest, p => (p.remove? i).bind fun (_, p) => removeEach? rest p

/-- Writes the residuals in, then removes the absorbed positions from the last to the first. A
position that does not exist ends it without a result. -/
def applyTo? (l : Ledger ρ) (p : Pipeline ρ) : Option (Pipeline ρ) :=
  (replaceEach? l.residuals.toList p).bind (removeEach? l.removals.keys.reverse)

end Ledger
end Pushdown
