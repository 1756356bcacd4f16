import Pushdown.Pipeline.Terminal
import Pushdown.Error

/-! # Pipelines

A pipeline holds operations in order of application, a terminal operation that is set once, and a
state that leaves `ready` with the one render a pipeline allows. Edits at a position beyond the
operations give `none`.
-/

namespace Pushdown

/-- Whether a pipeline may be rendered, or how its render ended. -/
inductive PipelineState
  | ready
  | rendered
  | failed
deriving DecidableEq

def PipelineState.display : PipelineState → String
  | ready => "Open"
  | rendered => "Rendered"
  | failed => "Failed"

/-- Operations on the rows of the entity named `root`, and what they are asked for. -/
structure Pipeline (ρ : Type) where
  root : String
  operations : List (Operation ρ)
  terminal? : Option (Terminal ρ)
  state : PipelineState

namespace Pipeline

variable {ρ : Type}

def ofOperations (E : Entity ρ) (ops : List (Operation ρ)) : Pipeline ρ :=
  ⟨E.name, ops, none, .ready⟩

def new (E : Entity ρ) : Pipeline ρ := ofOperations E []

def append (p : Pipeline ρ) (op : Operation ρ) : Pipeline ρ :=
  { p with operations := p.operations ++ [op] }

def prepend (p : Pipeline ρ) (op : Operation ρ) : Pipeline ρ :=
  { p with operations := op :: p.operations }

def insert? (p : Pipeline ρ) (i : Nat) (op : Operation ρ) : Option (Pipeline ρ) :=
  if i ≤ p.operations.length then
    some { p with operations := p.operations.take i ++ op :: p.operations.drop i }
  else none

def remove? (p : Pipeline ρ) (i : Nat) : Option (Operation ρ × Pipeline ρ) :=
  p.operations[i]?.map fun op => (op, { p with operations := p.operations.eraseIdx i })

def replace? (p : Pipeline ρ) (i : Nat) (op : Operation ρ) : Option (Operation ρ × Pipeline ρ) :=
  p.operations[i]?.map fun old => (old, { p with operations := p.operations.set i op })

def setTerminal (p : Pipeline ρ) (t : Terminal ρ) : Except RenderError (Pipeline ρ) :=
  match p.terminal? with
  | some existing => .error (.illegalState (.terminalAlreadySet existing.display))
  | none => .ok { p with terminal? := some t }

/-- Swaps the terminal operation for another, whether one was set or not. -/
def replaceTerminal (p : Pipeline ρ) (t : Terminal ρ) : Option (Terminal ρ) × Pipeline ρ :=
  (p.terminal?, { p with terminal? := some t })

def beginRender (p : Pipeline ρ) : Except RenderError (Terminal ρ) :=
  match p.state, p.terminal? with
  | .rendered, _ => .error (.illegalState .alreadyRendered)
  | .failed, _ => .error (.illegalState .failedBefore)
  | .ready, none => .error (.illegalState .noTerminal)
  | .ready, some t => .ok t

def display (p : Pipeline ρ) : String :=
  joined "." (p.root :: p.operations.map Operation.display ++
    (p.terminal?.map Terminal.display).toList)

end Pipeline
end Pushdown
