import Pushdown.Merge.Registry

/-! # Merge passes

A pass walks the operations from the front and stops at the first one that is not absorbed whole,
so all that is pushed down stands before all that is left for replay. The criteria pass comes
first, and the query pass works on what it leaves.
-/

namespace Pushdown

structure Pass (ρ σ : Type) where
  operations : List (Operation ρ)
  target : σ
  outcome : MergeOutcome

namespace Pass

variable {ρ σ : Type}

/-- Tries strategies in turn until one marks the position or fails. -/
def tryEach (i : Nat) (op : Operation ρ) : List (Strategy ρ σ) → MergeState ρ σ →
    MergeState ρ σ × Option LoweringError
  | [], s => (s, none)
  | strategy :: rest, s =>
    match strategy.apply i op s with
    | (s, some e) => (s, some e)
    | (s, none) =>
      if s.tracker.isMarkedForRemoval i || s.tracker.isReplaced i then (s, none)
      else tryEach i op rest s

def walk (strategies : Kind → List (Strategy ρ σ)) : Nat → List (Operation ρ) → MergeState ρ σ →
    MergeState ρ σ
  | _, [], s => s
  | i, op :: ops, s =>
    match tryEach i op (strategies op.kind) s with
    | (s, some e) => { s with tracker := s.tracker.recordFailure i e }
    | (s, none) => if s.tracker.isMarkedForRemoval i then walk strategies (i + 1) ops s else s

def run (strategies : Kind → List (Strategy ρ σ)) (ops : List (Operation ρ)) (target : σ) :
    Pass ρ σ :=
  let s := walk strategies 0 ops ⟨target, .new⟩
  let left :=
    match s.tracker.applyTo ops with
    | .ok left => left
    | .error left => left
  ⟨left, s.target, s.tracker.outcome⟩

end Pass

namespace Registry

variable {ρ : Type}

def mergeCriteria (r : Registry ρ) (ops : List (Operation ρ)) (c : Criteria) : Pass ρ Criteria :=
  Pass.run r.criteriaFor ops c

def mergeQuery (r : Registry ρ) (ops : List (Operation ρ)) (q : Query) : Pass ρ Query :=
  Pass.run r.queryFor ops q

def merge (r : Registry ρ) (ops : List (Operation ρ)) (q : Query) : Pass ρ Query :=
  let first := r.mergeCriteria ops q.criteria
  let second := r.mergeQuery first.operations { q with criteria := first.target }
  { second with outcome := first.outcome.followedBy second.outcome }

end Registry
end Pushdown
