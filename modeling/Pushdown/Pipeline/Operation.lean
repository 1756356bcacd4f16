import Pushdown.Condition.Comparator
import Pushdown.Condition.Predicate
import Pushdown.Flow.Operations

/-! # Operations

An intermediate operation has a kind, arguments, and a transform, which is what replay does with
it. The constructors below set all three in step. An operation may also carry further arguments,
another transform, or none, in which case it can only be pushed down.
-/

namespace Pushdown

/-- What an operation does, as far as strategies and fusions tell operations apart. -/
inductive Kind
  | filter
  | map
  | flatMap
  | peek
  | distinct
  | sorted
  | limit
  | skip
  | takeWhile
  | dropWhile
  | custom (name : String)
deriving DecidableEq

namespace Kind

def builtIn : List Kind :=
  [filter, map, flatMap, peek, distinct, sorted, limit, skip, takeWhile, dropWhile]

def display : Kind → String
  | filter => "FILTER"
  | map => "MAP"
  | flatMap => "FLAT_MAP"
  | peek => "PEEK"
  | distinct => "DISTINCT"
  | sorted => "SORTED"
  | limit => "LIMIT"
  | skip => "SKIP"
  | takeWhile => "TAKE_WHILE"
  | dropWhile => "DROP_WHILE"
  | custom name => name

def rank : Kind → Nat
  | filter => 0
  | map => 1
  | flatMap => 2
  | peek => 3
  | distinct => 4
  | sorted => 5
  | limit => 6
  | skip => 7
  | takeWhile => 8
  | dropWhile => 9
  | custom _ => 10

/-- Custom kinds come last, by name. -/
protected def compare : Kind → Kind → Ordering
  | custom a, custom b => Ord.compare a b
  | a, b => Ord.compare a.rank b.rank

instance : Ord Kind := ⟨Kind.compare⟩

end Kind

/-- What replay does with the flow that reaches an operation. -/
abbrev Transform (ρ : Type) := Flow ρ → Flow ρ

inductive Argument (ρ : Type)
  | predicate (p : Predicate ρ)
  | comparator (c : Comparator ρ)
  | count (n : UInt64)
  | mapper (f : Closure (ρ → ρ))
  | flatMapper (f : Closure (ρ → List ρ))
  | observer (o : Observer)

namespace Argument

variable {ρ : Type}

def predicate? : Argument ρ → Option (Predicate ρ)
  | predicate p => some p
  | _ => none

def comparator? : Argument ρ → Option (Comparator ρ)
  | comparator c => some c
  | _ => none

def count? : Argument ρ → Option UInt64
  | count n => some n
  | _ => none

def same : Argument ρ → Argument ρ → Bool
  | predicate p, predicate q => p.same q
  | comparator c, comparator d => c.same d
  | count n, count m => n == m
  | mapper f, mapper g => f.same g
  | flatMapper f, flatMapper g => f.same g
  | observer o, observer p => o.same p
  | _, _ => false

def display : Argument ρ → String
  | predicate p => p.display
  | comparator c => c.display
  | count n => toString n.toNat
  | mapper _ | flatMapper _ | observer _ => "<fn>"

end Argument

/-- An intermediate operation. Without a transform it cannot be replayed. -/
structure Operation (ρ : Type) where
  kind : Kind
  arguments : List (Argument ρ)
  transform : Option (Transform ρ)

namespace Operation

variable {ρ : Type}

def predicate? (op : Operation ρ) : Option (Predicate ρ) := op.arguments.findSome? (·.predicate?)

def comparator? (op : Operation ρ) : Option (Comparator ρ) := op.arguments.findSome? (·.comparator?)

def count? (op : Operation ρ) : Option UInt64 := op.arguments.findSome? (·.count?)

def withArgument (op : Operation ρ) (a : Argument ρ) : Operation ρ :=
  { op with arguments := op.arguments ++ [a] }

def withTransform (op : Operation ρ) (t : Transform ρ) : Operation ρ :=
  { op with transform := some t }

/-- An operation that only a registered strategy can absorb. -/
def custom (name : String) : Operation ρ := ⟨.custom name, [], none⟩

def filter (E : Entity ρ) (p : Predicate ρ) : Operation ρ :=
  ⟨.filter, [.predicate p], some (Flow.filter fun row => p.test E row)⟩

def map (f : Closure (ρ → ρ)) : Operation ρ := ⟨.map, [.mapper f], some (Flow.map f.fn)⟩

def flatMap (f : Closure (ρ → List ρ)) : Operation ρ :=
  ⟨.flatMap, [.flatMapper f], some (Flow.flatMap f.fn)⟩

def peek (o : Observer) : Operation ρ := ⟨.peek, [.observer o], some (Flow.observe o)⟩

def distinct (E : Entity ρ) : Operation ρ := ⟨.distinct, [], some (Flow.distinct E.rowKey)⟩

def sorted (E : Entity ρ) : Operation ρ :=
  ⟨.sorted, [], some (Flow.rearrange (Comparator.natural.sort E))⟩

def sortedBy (E : Entity ρ) (c : Comparator ρ) : Operation ρ :=
  ⟨.sorted, [.comparator c], some (Flow.rearrange (c.sort E))⟩

def limit (n : UInt64) : Operation ρ := ⟨.limit, [.count n], some (Flow.take n.toNat)⟩

def skip (n : UInt64) : Operation ρ := ⟨.skip, [.count n], some (Flow.drop n.toNat)⟩

def takeWhile (E : Entity ρ) (p : Predicate ρ) : Operation ρ :=
  ⟨.takeWhile, [.predicate p], some (Flow.takeWhile fun row => p.test E row)⟩

def dropWhile (E : Entity ρ) (p : Predicate ρ) : Operation ρ :=
  ⟨.dropWhile, [.predicate p], some (Flow.dropWhile fun row => p.test E row)⟩

/-- Equality of kind and arguments; transforms have no equality. -/
def same (a b : Operation ρ) : Bool :=
  a.kind == b.kind && a.arguments.length == b.arguments.length &&
    (a.arguments.zip b.arguments).all fun p => p.1.same p.2

def display (op : Operation ρ) : String :=
  op.kind.display ++ "(" ++ commaList (op.arguments.map Argument.display) ++ ")"

/-- The transforms of all operations, one behind the other from left to right; or the first
operation that has none. -/
def composed : List (Operation ρ) → Except (Operation ρ) (Transform ρ)
  | [] => .ok id
  | op :: ops =>
    match op.transform with
    | some t => (composed ops).map fun later flow => later (t flow)
    | none => .error op

def replay? (ops : List (Operation ρ)) (flow : Flow ρ) : Option (Flow ρ) :=
  (composed ops).toOption.map fun t => t flow

end Operation
end Pushdown
