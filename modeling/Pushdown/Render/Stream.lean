import Pushdown.Render.Renderer

/-! # Streams

A stream is a pipeline that grows operation by operation and is rendered by the terminal operation
that ends it.
-/

namespace Pushdown

/-- A pipeline under construction, with the renderer that will render it. -/
structure Stream (ρ : Type) where
  renderer : Renderer ρ
  pipeline : Pipeline ρ
  configuration : StreamConfiguration

/-- The end of a stream: the terminal's answer and what it took to find it. -/
structure StreamAnswer (ρ : Type) where
  value : Except RenderError (TerminalValue ρ)
  visits : List (Visit ρ)
  store : Store ρ
  journal : Journal

def Renderer.streamWith {ρ : Type} (r : Renderer ρ) (configuration : StreamConfiguration) :
    Stream ρ :=
  ⟨r, .new r.entity, configuration⟩

def Renderer.stream {ρ : Type} (r : Renderer ρ) : Stream ρ := r.streamWith .standard

namespace Stream

variable {ρ : Type}

def operation (s : Stream ρ) (op : Operation ρ) : Stream ρ :=
  { s with pipeline := s.pipeline.append op }

def filter (s : Stream ρ) (p : Predicate ρ) : Stream ρ := s.operation (.filter s.renderer.entity p)

def map (s : Stream ρ) (f : Closure (ρ → ρ)) : Stream ρ := s.operation (.map f)

def flatMap (s : Stream ρ) (f : Closure (ρ → List ρ)) : Stream ρ := s.operation (.flatMap f)

def peek (s : Stream ρ) (o : Observer) : Stream ρ := s.operation (.peek o)

def distinct (s : Stream ρ) : Stream ρ := s.operation (.distinct s.renderer.entity)

def sorted (s : Stream ρ) : Stream ρ := s.operation (.sorted s.renderer.entity)

def sortedBy (s : Stream ρ) (c : Comparator ρ) : Stream ρ :=
  s.operation (.sortedBy s.renderer.entity c)

def limit (s : Stream ρ) (n : UInt64) : Stream ρ := s.operation (.limit n)

def skip (s : Stream ρ) (n : UInt64) : Stream ρ := s.operation (.skip n)

def takeWhile (s : Stream ρ) (p : Predicate ρ) : Stream ρ :=
  s.operation (.takeWhile s.renderer.entity p)

def dropWhile (s : Stream ρ) (p : Predicate ρ) : Stream ρ :=
  s.operation (.dropWhile s.renderer.entity p)

/-- Ends the stream with a terminal operation: renders it and applies the terminal operation. -/
def finish (s : Stream ρ) (store : Store ρ) (t : Terminal ρ) : StreamAnswer ρ :=
  match s.pipeline.setTerminal t with
  | .error e => ⟨.error e, [], store, .empty⟩
  | .ok pipeline =>
    let rendering := s.renderer.render store pipeline s.configuration
    match rendering.result with
    | .error e => ⟨.error e, [], rendering.store, rendering.journal⟩
    | .ok result =>
      let use := result.execute s.renderer.entity
      ⟨use.answer, use.visits, rendering.store, rendering.journal⟩

/-- Ends the stream with a terminal operation, and reads its answer. -/
def answer (s : Stream ρ) (store : Store ρ) (t : Terminal ρ) : Except RenderError t.Answer :=
  match (s.finish store t).value with
  | .error e => .error e
  | .ok value =>
    match t.read? value with
    | some a => .ok a
    | none => .error (.illegalState (.otherShape t.display))

end Stream
end Pushdown
