import Pushdown.Error

/-! # Journals

A journal holds what renders and stores report while they work: trace events, metrics events, and
printed lines, each in order of time.
-/

namespace Pushdown

inductive RenderPhase
  | init
  | optimize
  | buildQuery
  | execute
  | replay
  | done
deriving DecidableEq

def RenderPhase.display : RenderPhase → String
  | init => "INIT"
  | optimize => "OPTIMIZE"
  | buildQuery => "BUILD_QUERY"
  | execute => "EXECUTE"
  | replay => "REPLAY"
  | done => "DONE"

inductive TraceEvent
  | start (entity : String) (operations : Nat)
  | phase (entity : String) (phase : RenderPhase) (operations : Nat)
  | loweringFailure (entity : String) (error : LoweringError)
  | finish (entity : String) (pushed replayed : Nat)
  | error (entity : String) (errorClass : ErrorClass)
deriving DecidableEq

inductive MetricsEvent
  | renderStart (entity : String)
  | renderFinish (entity : String) (pushed replayed : Nat) (fastPath : Bool)
  | renderError (entity : String) (errorClass : ErrorClass)
  | loweringFailure (entity : String)
  | storeExecution (entity : String) (rowsScanned : Nat)
deriving DecidableEq

/-- Reports on three channels, the earliest first. -/
structure Journal where
  trace : List TraceEvent
  metrics : List MetricsEvent
  lines : List String
deriving DecidableEq

namespace Journal

def empty : Journal := ⟨[], [], []⟩

def append (a b : Journal) : Journal :=
  ⟨a.trace ++ b.trace, a.metrics ++ b.metrics, a.lines ++ b.lines⟩

instance : Append Journal := ⟨append⟩

def ofMetrics (e : MetricsEvent) : Journal := ⟨[], [e], []⟩

def ofTrace (enabled : Bool) (e : TraceEvent) : Journal :=
  if enabled then ⟨[e], [], []⟩ else empty

def ofLine (enabled : Bool) (line : String) : Journal :=
  if enabled then ⟨[], [], ["[debug] " ++ line]⟩ else empty

def concat (js : List Journal) : Journal := js.foldr append empty

section Channels

variable (a b : Journal)

@[simp]
theorem append_empty : a ++ empty = a := by
  change append a empty = a
  simp [append, empty]

@[simp]
theorem trace_append : (a ++ b).trace = a.trace ++ b.trace := rfl

@[simp]
theorem metrics_append : (a ++ b).metrics = a.metrics ++ b.metrics := rfl

@[simp]
theorem trace_ofMetrics (e : MetricsEvent) : (ofMetrics e).trace = [] := rfl

@[simp]
theorem metrics_ofMetrics (e : MetricsEvent) : (ofMetrics e).metrics = [e] := rfl

@[simp]
theorem trace_ofTrace (enabled : Bool) (e : TraceEvent) :
    (ofTrace enabled e).trace = if enabled then [e] else [] := by
  cases enabled <;> rfl

@[simp]
theorem metrics_ofTrace (enabled : Bool) (e : TraceEvent) : (ofTrace enabled e).metrics = [] := by
  cases enabled <;> rfl

@[simp]
theorem trace_ofLine (enabled : Bool) (line : String) : (ofLine enabled line).trace = [] := by
  cases enabled <;> rfl

@[simp]
theorem metrics_ofLine (enabled : Bool) (line : String) : (ofLine enabled line).metrics = [] := by
  cases enabled <;> rfl

@[simp]
theorem trace_concat (js : List Journal) : (concat js).trace = js.flatMap trace := by
  induction js with
  | nil => rfl
  | cons j js ih => rw [List.flatMap_cons, ← ih]; rfl

@[simp]
theorem metrics_concat (js : List Journal) : (concat js).metrics = js.flatMap metrics := by
  induction js with
  | nil => rfl
  | cons j js ih => rw [List.flatMap_cons, ← ih]; rfl

end Channels

end Journal
end Pushdown
