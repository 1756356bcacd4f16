import Pushdown.Journal.Metrics
import Pushdown.Render.Renderer

/-! # Sessions

Pipelines are rendered on one store, one after the other, and a report counts what they do. The
report may count other things in between, that happen elsewhere.
-/

namespace Pushdown

/-- A store, and the report that renders on it share. -/
structure Session (ρ : Type) where
  store : Store ρ
  report : MetricsReport

namespace Session

variable {ρ : Type}

inductive Step (ρ : Type)
  | render (r : Renderer ρ) (pipeline : Pipeline ρ) (configuration : StreamConfiguration)
  | elsewhere (e : MetricsEvent)

def start (store : Store ρ) : Session ρ := ⟨store, .empty⟩

def step (σ : Session ρ) : Step ρ → Session ρ
  | .render r pipeline configuration =>
    let rendering := r.render σ.store pipeline configuration
    ⟨rendering.store, σ.report.recordAll rendering.journal.metrics⟩
  | .elsewhere e => { σ with report := σ.report.record e }

def run (σ : Session ρ) (steps : List (Step ρ)) : Session ρ := steps.foldl step σ

/-- The number of operations that a render is left with after optimization, if it succeeds. -/
def optimizedIn (σ : Session ρ) : Step ρ → Nat
  | .render r pipeline configuration =>
    match (r.render σ.store pipeline configuration).result with
    | .ok _ => (pipeline.optimize r.entity r.settings.optimizer).operations.length
    | .error _ => 0
  | .elsewhere _ => 0

def optimizedThrough (σ : Session ρ) : List (Step ρ) → Nat
  | [] => 0
  | step :: steps => σ.optimizedIn step + (σ.step step).optimizedThrough steps

end Session
end Pushdown
