import Pushdown.Data.Entries
import Pushdown.Error
import Pushdown.Pipeline.Operation

/-! # Merge tracker

A tracker keeps the books of one merge pass: which operations were absorbed, which were absorbed in
part and what is left of them, which kinds were merged, and which arguments failed to lower. A
position has one mark at most, so no operation is both dropped and replaced.
-/

namespace Pushdown

/-- What became of an operation that was absorbed whole or in part. -/
inductive Mark (ρ : Type)
  | absorbed
  | residual (op : Operation ρ)

/-- What a pass did: how many operations it absorbed whole and in part, which kinds it merged, and
which arguments failed to lower. -/
structure MergeOutcome where
  removed : Nat
  replaced : Nat
  merged : List Kind
  failures : List LoweringError
deriving DecidableEq

namespace MergeOutcome

def isNoop (o : MergeOutcome) : Bool := o.removed == 0 && o.replaced == 0

def followedBy (o p : MergeOutcome) : MergeOutcome :=
  ⟨o.removed + p.removed, o.replaced + p.replaced, o.merged ++ p.merged, o.failures ++ p.failures⟩

end MergeOutcome

/-- Marks by position, merged kinds, and failures with their positions. -/
structure Tracker (ρ : Type) where
  marks : Entries Nat (Mark ρ)
  mergedKinds : Entries Kind Unit
  failures : List (Nat × LoweringError)

namespace Tracker

variable {ρ : Type}

def new : Tracker ρ := ⟨.empty, .empty, []⟩

def markForRemoval (t : Tracker ρ) (i : Nat) : Tracker ρ :=
  { t with marks := t.marks.insert i .absorbed }

/-- Keeps the operation at `i` in its place, as what is left of it. -/
def replaceWith (t : Tracker ρ) (i : Nat) (residual : Operation ρ) : Tracker ρ :=
  { t with marks := t.marks.insert i (.residual residual) }

def markMerged (t : Tracker ρ) (kind : Kind) : Tracker ρ :=
  { t with mergedKinds := t.mergedKinds.insert kind () }

def recordFailure (t : Tracker ρ) (i : Nat) (e : LoweringError) : Tracker ρ :=
  { t with failures := t.failures ++ [(i, e)] }

def isMarkedForRemoval (t : Tracker ρ) (i : Nat) : Bool :=
  match t.marks.find? i with
  | some .absorbed => true
  | _ => false

def isReplaced (t : Tracker ρ) (i : Nat) : Bool :=
  match t.marks.find? i with
  | some (.residual _) => true
  | _ => false

def wasMerged (t : Tracker ρ) (kind : Kind) : Bool := t.mergedKinds.contains kind

/-- The absorbed positions, in increasing order. -/
def removals (t : Tracker ρ) : List Nat :=
  t.marks.toList.filterMap fun e =>
    match e.2 with
    | .absorbed => some e.1
    | .residual _ => none

def residuals (t : Tracker ρ) : List (Nat × Operation ρ) :=
  t.marks.toList.filterMap fun e =>
    match e.2 with
    | .absorbed => none
    | .residual op => some (e.1, op)

def replaceEach : List (Nat × Operation ρ) → List (Operation ρ) →
    Except (List (Operation ρ)) (List (Operation ρ))
  | [], ops => .ok ops
  | (i, op) :: rest, ops =>
    if i < ops.length then replaceEach rest (ops.set i op) else .error ops

def eraseEach : List Nat → List (Operation ρ) → Except (List (Operation ρ)) (List (Operation ρ))
  | [], ops => .ok ops
  | i :: rest, ops => if i < ops.length then eraseEach rest (ops.eraseIdx i) else .error ops

/-- Writes the residuals in, then strips the absorbed positions from the last to the first. At a
position beyond the operations it stops with the error of what has been done so far. -/
def applyTo (t : Tracker ρ) (ops : List (Operation ρ)) :
    Except (List (Operation ρ)) (List (Operation ρ)) := do
  eraseEach t.removals.reverse (← replaceEach t.residuals ops)

def outcome (t : Tracker ρ) : MergeOutcome :=
  ⟨t.removals.length, t.residuals.length, t.mergedKinds.keys, t.failures.map Prod.snd⟩

end Tracker
end Pushdown
