import Pushdown.Number.Count
import Pushdown.Pipeline.Operation

/-! # Fusion

A fusion knows how the values of a run of operations of one kind combine into one value, and how to
build the operation that stands for it; a neutral value needs no operation. An operation of the
kind without a value ends a run, like one of another kind.
-/

namespace Pushdown

/-- How runs of operations of one kind fuse by way of values `ν`. -/
structure Fusion (ρ ν : Type) where
  kind : Kind
  neutral : ν
  isNeutral : ν → Bool
  value? : Operation ρ → Option ν
  /-- Combines the value of an earlier operation with that of the later ones. -/
  combine : ν → ν → ν
  build : ν → Operation ρ

namespace Fusion

variable {ρ ν : Type}

def part? (f : Fusion ρ ν) (op : Operation ρ) : Option ν :=
  if op.kind = f.kind then f.value? op else none

/-- Writes a pending value in front of the operations behind it. -/
def flush (f : Fusion ρ ν) (pending : ν) (ops : List (Operation ρ)) : List (Operation ρ) :=
  if f.isNeutral pending then ops else f.build pending :: ops

/-- Scans from the back: the value pending in front of the operations done so far. -/
def scan (f : Fusion ρ ν) : List (Operation ρ) → ν × List (Operation ρ)
  | [] => (f.neutral, [])
  | op :: ops =>
    let (pending, done) := scan f ops
    match f.part? op with
    | some v => (f.combine v pending, done)
    | none => (f.neutral, op :: f.flush pending done)

def squash (f : Fusion ρ ν) (ops : List (Operation ρ)) : List (Operation ρ) :=
  let (pending, done) := f.scan ops
  f.flush pending done

/-- The earlier predicate is evaluated first. TRUE drops out of a conjunction. -/
def bothHold : Option (Predicate ρ) → Option (Predicate ρ) → Option (Predicate ρ)
  | some .always, other => some (other.getD .always)
  | other, some .always => some (other.getD .always)
  | some p, some q => some (p.and q)
  | p, none => p
  | none, q => q

def filters (E : Entity ρ) : Fusion ρ (Option (Predicate ρ)) where
  kind := .filter
  neutral := none
  isNeutral := Option.isNone
  value? op := op.predicate?.map some
  combine := bothHold
  build p := Operation.filter E (p.getD .always)

/-- A later sort comes first; the earlier one decides between rows that it leaves tied. -/
def laterFirst : Option (Comparator ρ) → Option (Comparator ρ) → Option (Comparator ρ)
  | some c, some d => some (d.andThen c)
  | c, none => c
  | none, d => d

/-- A sort without a comparator takes no part. -/
def sorts (E : Entity ρ) : Fusion ρ (Option (Comparator ρ)) where
  kind := .sorted
  neutral := none
  isNeutral := Option.isNone
  value? op := op.comparator?.map some
  combine := laterFirst
  build
    | some c => Operation.sortedBy E c
    | none => Operation.sorted E

def skips : Fusion ρ UInt64 where
  kind := .skip
  neutral := 0
  isNeutral n := n == 0
  value? := Operation.count?
  combine := Count.add
  build := Operation.skip

def limits : Fusion ρ UInt64 where
  kind := .limit
  neutral := Count.greatest
  isNeutral n := n == Count.greatest
  value? := Operation.count?
  combine := Count.min
  build := Operation.limit

end Fusion

namespace Operation

variable {ρ : Type}

def isBareDistinct (op : Operation ρ) : Bool := op.kind == .distinct && op.arguments.isEmpty

def collapseDistinctAfter (bare : Bool) : List (Operation ρ) → List (Operation ρ)
  | [] => []
  | op :: ops =>
    if bare && op.isBareDistinct then collapseDistinctAfter true ops
    else op :: collapseDistinctAfter op.isBareDistinct ops

/-- Of neighbouring DISTINCTs without arguments, the first is kept. -/
def collapseDistinct (ops : List (Operation ρ)) : List (Operation ρ) :=
  collapseDistinctAfter false ops

end Operation
end Pushdown
