import Pushdown.Render.Renderer

/-! # Lifecycles

A caller edits a pipeline, renders it and uses the result, in any order and any number of times. An
edit at a position beyond the operations changes nothing, and a render that fails yields no result.
-/

namespace Pushdown

/-- A pipeline, and its result once it has one. -/
structure Lifecycle (ρ : Type) where
  pipeline : Pipeline ρ
  result? : Option (RenderResult ρ)

namespace Lifecycle

variable {ρ : Type}

/-- What a caller can do with a pipeline and its result. -/
inductive Call (ρ : Type)
  | append (op : Operation ρ)
  | prepend (op : Operation ρ)
  | insert (i : Nat) (op : Operation ρ)
  | remove (i : Nat)
  | replace (i : Nat) (op : Operation ρ)
  | setTerminal (t : Terminal ρ)
  | replaceTerminal (t : Terminal ρ)
  | render (r : Renderer ρ) (store : Store ρ) (configuration : StreamConfiguration)
  | execute
  | takeRows

/-- What a caller gets back. `beyond` says that there is no operation at a position, `noResult` that
there is nothing to use. -/
inductive Reply (ρ : Type)
  | done
  | beyond
  | operation (op : Operation ρ)
  | terminal (t? : Option (Terminal ρ))
  | value (v : TerminalValue ρ)
  | rows (flow : Flow ρ)
  | failed (e : RenderError)
  | noResult

/-- Swaps in an edited pipeline, if the edit was possible. -/
def edit (l : Lifecycle ρ) : Option (Operation ρ × Pipeline ρ) → Lifecycle ρ × Reply ρ
  | some (op, p) => ({ l with pipeline := p }, .operation op)
  | none => (l, .beyond)

/-- Uses the result, if there is one. -/
def use {α : Type} (l : Lifecycle ρ) (consume : RenderResult ρ → Consumption ρ α)
    (reply : α → Reply ρ) : Lifecycle ρ × Reply ρ :=
  match l.result? with
  | none => (l, .noResult)
  | some result =>
    let consumption := consume result
    let l := { l with result? := some consumption.result }
    match consumption.answer with
    | .ok a => (l, reply a)
    | .error e => (l, .failed e)

def step (E : Entity ρ) (l : Lifecycle ρ) : Call ρ → Lifecycle ρ × Reply ρ
  | .append op => ({ l with pipeline := l.pipeline.append op }, .done)
  | .prepend op => ({ l with pipeline := l.pipeline.prepend op }, .done)
  | .insert i op =>
    match l.pipeline.insert? i op with
    | some p => ({ l with pipeline := p }, .done)
    | none => (l, .beyond)
  | .remove i => l.edit (l.pipeline.remove? i)
  | .replace i op => l.edit (l.pipeline.replace? i op)
  | .setTerminal t =>
    match l.pipeline.setTerminal t with
    | .ok p => ({ l with pipeline := p }, .done)
    | .error e => (l, .failed e)
  | .replaceTerminal t =>
    let (old?, p) := l.pipeline.replaceTerminal t
    ({ l with pipeline := p }, .terminal old?)
  | .render r store configuration =>
    let rendering := r.render store l.pipeline configuration
    match rendering.result with
    | .ok result => (⟨rendering.pipeline, some result⟩, .done)
    | .error e => ({ l with pipeline := rendering.pipeline }, .failed e)
  | .execute => l.use (RenderResult.execute E) .value
  | .takeRows => l.use RenderResult.takeRows .rows

def run (E : Entity ρ) (l : Lifecycle ρ) (calls : List (Call ρ)) : Lifecycle ρ :=
  calls.foldl (fun l c => (l.step E c).1) l

/-- One call, with what it found, what it gave back, and what it left. -/
structure Event (ρ : Type) where
  before : Lifecycle ρ
  call : Call ρ
  reply : Reply ρ
  after : Lifecycle ρ

def event (E : Entity ρ) (l : Lifecycle ρ) (c : Call ρ) : Event ρ :=
  ⟨l, c, (l.step E c).2, (l.step E c).1⟩

/-- What happens in a run, in order of time. -/
def history (E : Entity ρ) (l : Lifecycle ρ) : List (Call ρ) → List (Event ρ)
  | [] => []
  | c :: calls => l.event E c :: history E (l.step E c).1 calls

end Lifecycle
end Pushdown
