import Pushdown.Proofs.RenderFailures

/-!
# Reports of a render

A plan absorbs what a whole merge absorbs and leaves what it leaves, also where it asks for a number
and never starts the second pass. What a render reports of it goes to three channels, and none of
the reports depends on whether anybody listens to another channel.
-/

namespace Pushdown

variable {ρ : Type}

namespace Plan

variable {plan : Plan ρ}

lemma countFastPath_of_count {c : Criteria} (h : plan.request = .count c) :
    plan.summary.countFastPath = true := by
  rw [summary, h]

lemma countFastPath_of_rows {q : Query} (h : plan.request = .rows q) :
    plan.summary.countFastPath = false := by
  rw [summary, h]

end Plan

namespace Renderer

open Operation

/-- The query that the passes of a render start from. -/
def query (r : Renderer ρ) (configuration : StreamConfiguration) : Query :=
  (Query.ofCriteria (r.factory configuration)).extendHints configuration.hints

/-- What the passes of a render make of its pipeline. -/
def merged (r : Renderer ρ) (pipeline : Pipeline ρ) (configuration : StreamConfiguration) :
    Pass ρ Query :=
  r.registry.merge (pipeline.optimize r.entity r.settings.optimizer).operations
    (r.query configuration)

variable {r : Renderer ρ} {t : Terminal ρ}

/-- A plan leaves the operations that a merge leaves, and counts and fails as it does: where it asks
for a number, there is nothing left for the query pass to absorb. -/
lemma plan_merges (hr : r.registry = .standard r.entity) {pipeline : Pipeline ρ}
    (hbegin : pipeline.beginRender = .ok t) (configuration : StreamConfiguration) :
    let plan := r.plan configuration t pipeline.operations
    let merged := r.merged pipeline configuration
    plan.optimized = (pipeline.optimize r.entity r.settings.optimizer).operations ∧
      plan.remaining = merged.operations ∧ plan.outcome.failures = merged.outcome.failures ∧
      plan.outcome.removed = merged.outcome.removed := by
  intro plan merged
  let optimized := (pipeline.optimize r.entity r.settings.optimizer).operations
  let first := r.registry.mergeCriteria optimized (r.factory configuration)
  let q : Query := { r.query configuration with criteria := first.target }
  let second := r.registry.mergeQuery first.operations q
  have hoptimized :
      optimize r.entity r.settings.optimizer (some t) pipeline.operations = optimized := by
    rw [← (Pipeline.beginRender_eq_ok.1 hbegin).2]
    rfl
  have hplan : plan =
      if t.kind == .count && first.operations.isEmpty && r.settings.countFastPath then
        ⟨optimized, first.operations, .count first.target.toCount, first.outcome⟩
      else
        ⟨optimized, second.operations, .rows second.target,
          first.outcome.followedBy second.outcome⟩ := by
    simp only [plan, Renderer.plan, hoptimized]
    rfl
  have hmerged : merged = { second with outcome := first.outcome.followedBy second.outcome } := rfl
  rw [hplan, hmerged]
  split
  · rename_i hfast
    simp only [Bool.and_eq_true, List.isEmpty_iff] at hfast
    have hsecond : second = (Registry.standard r.entity).mergeQuery [] q := by
      rw [← hr, ← hfast.1.2]
    obtain ⟨hnone, -, hremoved, -, hfailures⟩ := Registry.mergeQuery_standard r.entity [] q
    rw [hsecond, hnone]
    refine ⟨rfl, hfast.1.2, ?_, ?_⟩
    · rw [MergeOutcome.followedBy, hfailures]
      exact (List.append_nil _).symm
    · rw [MergeOutcome.followedBy, hremoved]
      rfl
  · exact ⟨rfl, rfl, rfl, rfl⟩

/-- A plan absorbs each optimized operation or leaves one for it. -/
lemma length_plan (hr : r.registry = .standard r.entity) {pipeline : Pipeline ρ}
    (hbegin : pipeline.beginRender = .ok t) (configuration : StreamConfiguration) :
    let plan := r.plan configuration t pipeline.operations
    plan.outcome.removed + plan.remaining.length =
      (pipeline.optimize r.entity r.settings.optimizer).operations.length := by
  intro plan
  obtain ⟨-, hremaining, -, hremoved⟩ := plan_merges hr hbegin configuration
  rw [hremaining, hremoved, Nat.add_comm, merged, hr]
  exact Registry.length_merge r.entity _ _

section Channels

variable (r : Renderer ρ) (n : Nat) (phase : RenderPhase) (plan : Plan ρ) (e : LoweringError)

@[simp]
lemma metrics_event (e : TraceEvent) : (r.event e).metrics = [] := Journal.metrics_ofTrace r.traced e

@[simp]
lemma trace_line (text : String) : (r.line text).trace = [] := Journal.trace_ofLine _ text

@[simp]
lemma metrics_line (text : String) : (r.line text).metrics = [] := Journal.metrics_ofLine _ text

@[simp]
lemma trace_phase :
    (r.phase phase n).trace = (r.event (.phase r.entity.name phase n)).trace := by
  simp [Renderer.phase]

@[simp]
lemma metrics_phase : (r.phase phase n).metrics = [] := by
  simp [Renderer.phase]

@[simp]
lemma trace_failureReport :
    (r.failureReport e).trace = (r.event (.loweringFailure r.entity.name e)).trace := by
  simp [failureReport]

@[simp]
lemma metrics_failureReport :
    (r.failureReport e).metrics = [.loweringFailure r.entity.name] := by
  simp [failureReport]

/-- A plan reports the failures of both passes, in order of time. -/
lemma trace_planReport :
    (r.planReport plan).trace =
      (r.event (.phase r.entity.name .buildQuery plan.remaining.length)).trace ++
        plan.outcome.failures.flatMap fun e =>
          (r.event (.loweringFailure r.entity.name e)).trace := by
  unfold planReport
  cases plan.request <;> simp [List.flatMap_map]

lemma metrics_planReport :
    (r.planReport plan).metrics =
      List.replicate plan.outcome.failures.length (.loweringFailure r.entity.name) := by
  unfold planReport
  cases plan.request <;> simp [List.flatMap_map, ← List.map_eq_flatMap]

end Channels

end Renderer
end Pushdown
