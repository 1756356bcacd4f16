import Pushdown.Merge.Pass
import Pushdown.Outline.Pipelines
import Pushdown.Pipeline.Basic
import Pushdown.Render.Configuration
import Pushdown.Render.Result
import Pushdown.Store

/-! # Rendering

A render optimizes the operations, merges what can be pushed down into a query, runs the query, and
lays the operations that are left over its rows. A plan is made without the store; carrying it out
calls the store at most once. Nothing is pulled before the terminal operation runs.
-/

namespace Pushdown

/-- What stays the same from one render to the next. -/
structure Renderer (ρ : Type) where
  entity : Entity ρ
  factory : StreamConfiguration → Criteria
  registry : Registry ρ
  settings : RendererSettings
  traced : Bool

inductive Request
  | count (c : Criteria)
  | rows (q : Query)

/-- A render up to its call to the store: the operations after optimization, those of them that are
left for replay, the request, and what the merge passes did. -/
structure Plan (ρ : Type) where
  optimized : List (Operation ρ)
  remaining : List (Operation ρ)
  request : Request
  outcome : MergeOutcome

structure Attempt (ρ : Type) where
  result : Except RenderError (RenderResult ρ)
  store : Store ρ
  journal : Journal

structure Rendering (ρ : Type) where
  result : Except RenderError (RenderResult ρ)
  pipeline : Pipeline ρ
  store : Store ρ
  journal : Journal

namespace Plan

variable {ρ : Type}

def summary (p : Plan ρ) : RenderSummary where
  pushed := p.outcome.removed
  replayed := p.remaining.length
  merged := p.outcome.merged
  failures := p.outcome.failures
  countFastPath := match p.request with | .count _ => true | .rows _ => false
  query := match p.request with | .count c => .ofCriteria c | .rows q => q

end Plan

namespace Renderer

variable {ρ : Type}

def new (E : Entity ρ) : Renderer ρ :=
  ⟨E, fun configuration => configuration.criteria E.name, .standard E, .standard, false⟩

def withSettings (r : Renderer ρ) (settings : RendererSettings) : Renderer ρ :=
  { r with settings := settings }

def withDebug (r : Renderer ρ) : Renderer ρ :=
  { r with settings := { r.settings with debug := true } }

/-- A count of which nothing is left for replay, or for the window, asks the store for the number
alone. -/
def plan (r : Renderer ρ) (configuration : StreamConfiguration) (terminal : Terminal ρ)
    (ops : List (Operation ρ)) : Plan ρ :=
  let optimized := Operation.optimize r.entity r.settings.optimizer (some terminal) ops
  let first := r.registry.mergeCriteria optimized (r.factory configuration)
  if terminal.kind == .count && first.operations.isEmpty && r.settings.countFastPath then
    ⟨optimized, first.operations, .count first.target.toCount, first.outcome⟩
  else
    let query := (Query.ofCriteria first.target).extendHints configuration.hints
    let second := r.registry.mergeQuery first.operations query
    ⟨optimized, second.operations, .rows second.target, first.outcome.followedBy second.outcome⟩

def line (r : Renderer ρ) (text : String) : Journal := .ofLine r.settings.debug text

def event (r : Renderer ρ) (e : TraceEvent) : Journal := .ofTrace r.traced e

def phase (r : Renderer ρ) (phase : RenderPhase) (operations : Nat) : Journal :=
  r.event (.phase r.entity.name phase operations) ++
    r.line ("Render phase " ++ phase.display ++ " (" ++ toString operations ++ " operations)")

def failureReport (r : Renderer ρ) (e : LoweringError) : Journal :=
  .ofMetrics (.loweringFailure r.entity.name) ++
    r.event (.loweringFailure r.entity.name e) ++ r.line ("Left for replay: " ++ e.message)

def planReport (r : Renderer ρ) (plan : Plan ρ) : Journal :=
  r.phase .buildQuery plan.remaining.length ++
    .concat (plan.outcome.failures.map r.failureReport) ++
    match plan.request with
    | .count c => r.line ("Count fast path: " ++ c.text)
    | .rows q =>
      r.line ("Merged: " ++ Outline.list (plan.outcome.merged.map Kind.outline)) ++
        r.line ("Query: " ++ q.text)

def carryOut (r : Renderer ρ) (store : Store ρ) (terminal : Terminal ρ) (plan : Plan ρ) :
    Attempt ρ :=
  match plan.request with
  | .count c =>
    let reply := store.count c
    let journal := r.planReport plan ++ r.phase .execute 0 ++ reply.journal
    match reply.answer with
    | .error e => ⟨.error (.store e), reply.store, journal⟩
    | .ok n => ⟨.ok ⟨.counted n, terminal, plan.summary⟩, reply.store, journal⟩
  | .rows q =>
    match Operation.composed plan.remaining with
    | .error op => ⟨.error (.unsupported (.noReplay op.display)), store, r.planReport plan⟩
    | .ok replay =>
      let reply := store.execute q
      let journal :=
        r.planReport plan ++ r.phase .execute plan.remaining.length ++ reply.journal
      match reply.answer with
      | .error e => ⟨.error (.store e), reply.store, journal⟩
      | .ok rows =>
        { result := .ok ⟨.rows (replay (.ofRows rows)), terminal, plan.summary⟩
          store := reply.store
          journal := journal ++ r.phase .replay plan.remaining.length }

def closing (r : Renderer ρ) : Except RenderError (RenderResult ρ) → Journal
  | .ok result =>
    let s := result.summary
    .ofMetrics (.renderFinish r.entity.name s.pushed s.replayed s.countFastPath) ++
      r.event (.finish r.entity.name s.pushed s.replayed) ++
      r.line ("Render phase " ++ RenderPhase.done.display)
  | .error e =>
    .ofMetrics (.renderError r.entity.name e.errorClass) ++
      r.event (.error r.entity.name e.errorClass) ++ r.line ("Render failed: " ++ e.message)

/-- Renders a pipeline. A call that the pipeline's state or a missing terminal operation refuses
changes and reports nothing; any other leaves the operations that were not pushed down. -/
def render (r : Renderer ρ) (store : Store ρ) (pipeline : Pipeline ρ)
    (configuration : StreamConfiguration) : Rendering ρ :=
  match pipeline.beginRender with
  | .error e => ⟨.error e, pipeline, store, .empty⟩
  | .ok terminal =>
    let plan := r.plan configuration terminal pipeline.operations
    let optimized := { pipeline with operations := plan.optimized }
    let attempt := r.carryOut store terminal plan
    let opening :=
      r.event (.start r.entity.name pipeline.operations.length) ++
        .ofMetrics (.renderStart r.entity.name) ++
        r.phase .init pipeline.operations.length ++ r.line ("Pipeline: " ++ pipeline.display) ++
        r.phase .optimize plan.optimized.length ++ r.line ("Optimized: " ++ optimized.display)
    let state : PipelineState :=
      match attempt.result with
      | .ok _ => .rendered
      | .error _ => .failed
    { result := attempt.result
      pipeline := { pipeline with operations := plan.remaining, state := state }
      store := attempt.store
      journal := opening ++ attempt.journal ++ r.closing attempt.result }

end Renderer
end Pushdown
