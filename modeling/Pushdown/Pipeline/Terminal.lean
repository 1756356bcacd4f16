import Pushdown.Pipeline.Operation

/-! # Terminal operations

A terminal operation is what a pipeline is asked for. `Terminal.pulled` says how far it pulls, and
`Terminal.evaluate` what it answers.
-/

namespace Pushdown

inductive TerminalKind
  | count
  | findFirst
  | findAny
  | anyMatch
  | allMatch
  | noneMatch
  | collect
  | forEach
  | min
  | max
  | iterator
deriving DecidableEq

def TerminalKind.display : TerminalKind → String
  | count => "COUNT"
  | findFirst => "FIND_FIRST"
  | findAny => "FIND_ANY"
  | anyMatch => "ANY_MATCH"
  | allMatch => "ALL_MATCH"
  | noneMatch => "NONE_MATCH"
  | collect => "COLLECT"
  | forEach => "FOR_EACH"
  | min => "MIN"
  | max => "MAX"
  | iterator => "ITERATOR"

inductive Terminal (ρ : Type)
  | count
  | findFirst
  | findAny
  | anyMatch (p : Predicate ρ)
  | allMatch (p : Predicate ρ)
  | noneMatch (p : Predicate ρ)
  | collect
  | forEach (o : Observer)
  | min (c : Comparator ρ)
  | max (c : Comparator ρ)
  | iterator

/-- What a terminal operation answers. `iterator` hands the flow on, not yet pulled. -/
inductive TerminalValue (ρ : Type)
  | count (n : Nat)
  | element (row? : Option ρ)
  | isMatch (b : Bool)
  | elements (rows : List ρ)
  | iterator (flow : Flow ρ)
  | done

namespace TerminalValue

variable {ρ : Type}

def asCount? : TerminalValue ρ → Option Nat
  | count n => some n
  | _ => none

def asMatch? : TerminalValue ρ → Option Bool
  | isMatch b => some b
  | _ => none

def asElement? : TerminalValue ρ → Option (Option ρ)
  | element row? => some row?
  | _ => none

def asElements? : TerminalValue ρ → Option (List ρ)
  | elements rows => some rows
  | _ => none

def asFlow? : TerminalValue ρ → Option (Flow ρ)
  | iterator flow => some flow
  | _ => none

def isDone : TerminalValue ρ → Bool
  | done => true
  | _ => false

end TerminalValue

namespace Terminal

variable {ρ : Type}

def kind : Terminal ρ → TerminalKind
  | count => .count
  | findFirst => .findFirst
  | findAny => .findAny
  | anyMatch _ => .anyMatch
  | allMatch _ => .allMatch
  | noneMatch _ => .noneMatch
  | collect => .collect
  | forEach _ => .forEach
  | min _ => .min
  | max _ => .max
  | iterator => .iterator

def arguments : Terminal ρ → List (Argument ρ)
  | anyMatch p | allMatch p | noneMatch p => [.predicate p]
  | forEach o => [.observer o]
  | min c | max c => [.comparator c]
  | count | findFirst | findAny | collect | iterator => []

def predicate? (t : Terminal ρ) : Option (Predicate ρ) := t.arguments.findSome? (·.predicate?)

def comparator? (t : Terminal ρ) : Option (Comparator ρ) := t.arguments.findSome? (·.comparator?)

def observer? : Terminal ρ → Option Observer
  | forEach o => some o
  | _ => none

def display (t : Terminal ρ) : String := t.kind.display

def same (a b : Terminal ρ) : Bool :=
  a.kind == b.kind && a.arguments.length == b.arguments.length &&
    (a.arguments.zip b.arguments).all fun p => p.1.same p.2

/-- What a terminal operation gives to its caller. -/
def Answer : Terminal ρ → Type
  | count => Nat
  | findFirst | findAny | min _ | max _ => Option ρ
  | anyMatch _ | allMatch _ | noneMatch _ => Bool
  | collect => List ρ
  | forEach _ => Unit
  | iterator => Flow ρ

/-- The terminal's answer in a value, unless the value is of another shape. -/
def read? : (t : Terminal ρ) → TerminalValue ρ → Option t.Answer
  | count, v => v.asCount?
  | findFirst, v | findAny, v | min _, v | max _, v => v.asElement?
  | anyMatch _, v | allMatch _, v | noneMatch _, v => v.asMatch?
  | collect, v => v.asElements?
  | forEach _, v => if v.isDone then some () else none
  | iterator, v => v.asFlow?

/-- The earliest row that no other row precedes under `better`. -/
def best? (better : ρ → ρ → Bool) : List ρ → Option ρ
  | [] => none
  | row :: rows => some (rows.foldl (fun kept r => if better r kept then r else kept) row)

/-- The steps that the terminal pulls from a flow; the rows are visited by `forEach` alone. -/
def pulled (E : Entity ρ) (t : Terminal ρ) (flow : Flow ρ) : Flow ρ :=
  match t with
  | findFirst | findAny => flow.take 1
  | anyMatch p | noneMatch p => flow.upTo fun row => p.test E row
  | allMatch p => flow.upTo fun row => !p.test E row
  | forEach o => flow.observe o
  | iterator => .empty
  | count | collect | min _ | max _ => flow

def evaluate (E : Entity ρ) (t : Terminal ρ) (flow : Flow ρ) : TerminalValue ρ :=
  let rows := (t.pulled E flow).rows
  match t with
  | count => .count rows.length
  | findFirst | findAny => .element rows.head?
  | anyMatch p => .isMatch (rows.any fun row => p.test E row)
  | allMatch p => .isMatch (rows.all fun row => p.test E row)
  | noneMatch p => .isMatch !(rows.any fun row => p.test E row)
  | collect => .elements rows
  | forEach _ => .done
  | min c => .element (best? (fun a b => c.compare E a b == .lt) rows)
  | max c => .element (best? (fun a b => c.compare E a b == .gt) rows)
  | iterator => .iterator flow

end Terminal
end Pushdown
