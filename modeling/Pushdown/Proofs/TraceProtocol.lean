import Pushdown.Proofs.Journals

/-!
# The trace of a render

A render that begins reports its phases with the numbers of operations that they leave, each failure
to lower between the second and the third of them, and one event at the end that agrees with the
result. The numbers add up: each operation of the optimized pipeline is pushed down or replayed.
Tracing has no effect but the trace.
-/

namespace Pushdown

variable {ρ : Type}

/-- How a trace ends, after the query is built from `n₁` operations and `n₂` of them are left: with
the class of an error, before the store is called or after, or with the numbers of operations that
were pushed down and that are replayed. A count by number skips the replay. -/
inductive Closes (name : String) (n₁ n₂ : Nat) :
    Except RenderError (RenderResult ρ) → List TraceEvent → Prop
  | unsupported {cause : Missing} :
      Closes name n₁ n₂ (.error (.unsupported cause))
        [.error name (RenderError.unsupported cause).errorClass]
  | refused {e : StoreError} :
      Closes name n₁ n₂ (.error (.store e))
        [.phase name .execute n₂, .error name (RenderError.store e).errorClass]
  | counted {result : RenderResult ρ} (hfast : result.summary.countFastPath = true)
      (hreplayed : result.summary.replayed = n₂) (hpushed : result.summary.pushed + n₂ = n₁) :
      Closes name n₁ n₂ (.ok result)
        [.phase name .execute n₂, .finish name result.summary.pushed result.summary.replayed]
  | replayed {result : RenderResult ρ} (hfast : result.summary.countFastPath = false)
      (hreplayed : result.summary.replayed = n₂) (hpushed : result.summary.pushed + n₂ = n₁) :
      Closes name n₁ n₂ (.ok result)
        [.phase name .execute n₂, .phase name .replay n₂,
          .finish name result.summary.pushed result.summary.replayed]

namespace Journal

/-- The journal without its trace. -/
def untraced (j : Journal) : Journal := { j with trace := [] }

@[simp]
lemma untraced_append (a b : Journal) : (a ++ b).untraced = a.untraced ++ b.untraced := rfl

@[simp]
lemma untraced_empty : empty.untraced = empty := rfl

@[simp]
lemma untraced_ofMetrics (e : MetricsEvent) : (ofMetrics e).untraced = ofMetrics e := rfl

@[simp]
lemma untraced_ofTrace (enabled : Bool) (e : TraceEvent) : (ofTrace enabled e).untraced = empty := by
  cases enabled <;> rfl

@[simp]
lemma untraced_ofLine (enabled : Bool) (line : String) :
    (ofLine enabled line).untraced = ofLine enabled line := by
  cases enabled <;> rfl

@[simp]
lemma untraced_concat (js : List Journal) : (concat js).untraced = concat (js.map untraced) := by
  induction js with
  | nil => rfl
  | cons j js ih => exact congrArg (append j.untraced) ih

end Journal

namespace Store

variable (s : Store ρ)

/-- A store does not trace. -/
@[simp]
lemma untraced_count (c : Criteria) : (s.count c).journal.untraced = (s.count c).journal := by
  unfold count
  cases s.refusal? c <;> simp

@[simp]
lemma untraced_execute (q : Query) : (s.execute q).journal.untraced = (s.execute q).journal := by
  unfold execute
  cases s.refusal? q.criteria <;> simp

end Store

namespace Renderer

open Operation

variable {r : Renderer ρ} {s : Store ρ} {t : Terminal ρ} {plan : Plan ρ} {attempt : Attempt ρ}

lemma trace_event (htraced : r.traced = true) (e : TraceEvent) : (r.event e).trace = [e] := by
  simp [event, htraced]

lemma trace_planReport_of_traced (htraced : r.traced = true) (plan : Plan ρ) :
    (r.planReport plan).trace =
      .phase r.entity.name .buildQuery plan.remaining.length ::
        plan.outcome.failures.map (.loweringFailure r.entity.name) := by
  simp [trace_planReport, trace_event htraced, ← List.map_eq_flatMap]

/-- After a plan is reported, the trace of its course and of what it comes to closes the trace. -/
lemma Course.closes (h : Course r s t plan attempt) (htraced : r.traced = true)
    (hcount : ∀ c, plan.request = .count c → plan.remaining = []) {n : Nat}
    (hn : plan.outcome.removed + plan.remaining.length = n) :
    ∃ ending, Closes r.entity.name n plan.remaining.length attempt.result ending ∧
      attempt.journal.trace ++ (r.closing attempt.result).trace =
        (r.planReport plan).trace ++ ending := by
  cases h with
  | unreplayable hrequest hcomposed =>
    refine ⟨_, .unsupported, ?_⟩
    simp [closing, trace_event htraced]
  | uncounted hrequest hrefusal =>
    refine ⟨_, .refused, ?_⟩
    simp [closing, trace_event htraced, hcount _ hrequest]
  | unanswered hrequest hrefusal =>
    refine ⟨_, .refused, ?_⟩
    simp [closing, trace_event htraced]
  | counted hrequest haccepted =>
    refine ⟨_, .counted (Plan.countFastPath_of_count hrequest) rfl hn, ?_⟩
    simp [closing, trace_event htraced, hcount _ hrequest]
  | replayed hrequest hcomposed haccepted =>
    refine ⟨_, .replayed (Plan.countFastPath_of_rows hrequest) rfl hn, ?_⟩
    simp [closing, trace_event htraced]

/-- The renderer without anybody to listen to its trace. -/
def muted (r : Renderer ρ) : Renderer ρ := { r with traced := false }

section Muted

variable (r : Renderer ρ)

@[simp]
lemma entity_muted : r.muted.entity = r.entity := rfl

lemma event_muted (e : TraceEvent) : r.muted.event e = (r.event e).untraced :=
  (Journal.untraced_ofTrace r.traced e).symm

lemma line_muted (text : String) : r.muted.line text = (r.line text).untraced :=
  (Journal.untraced_ofLine _ text).symm

lemma phase_muted (phase : RenderPhase) (n : Nat) :
    r.muted.phase phase n = (r.phase phase n).untraced := by
  rw [Renderer.phase, event_muted, line_muted]
  rfl

lemma failureReport_muted (e : LoweringError) :
    r.muted.failureReport e = (r.failureReport e).untraced := by
  rw [failureReport, event_muted, line_muted]
  rfl

lemma planReport_muted (plan : Plan ρ) : r.muted.planReport plan = (r.planReport plan).untraced := by
  have hfailures : (r.muted.failureReport) = Journal.untraced ∘ r.failureReport :=
    funext r.failureReport_muted
  unfold planReport
  rw [phase_muted, hfailures]
  cases plan.request <;> simp [line_muted]

lemma closing_muted (result : Except RenderError (RenderResult ρ)) :
    r.muted.closing result = (r.closing result).untraced := by
  unfold closing
  cases result <;> simp [event_muted, line_muted]

lemma carryOut_muted (s : Store ρ) (t : Terminal ρ) (plan : Plan ρ) :
    r.muted.carryOut s t plan =
      { r.carryOut s t plan with journal := (r.carryOut s t plan).journal.untraced } := by
  unfold carryOut
  rw [planReport_muted]
  cases plan.request with
  | count c =>
    simp only [phase_muted]
    cases (s.count c).answer <;> simp
  | rows q =>
    cases composed plan.remaining with
    | error op => rfl
    | ok replay =>
      simp only [phase_muted]
      cases (s.execute q).answer <;> simp

/-- A render that nobody traces does the same, and reports the same otherwise. -/
lemma render_muted (s : Store ρ) (pipeline : Pipeline ρ) (configuration : StreamConfiguration) :
    r.muted.render s pipeline configuration =
      { r.render s pipeline configuration with
        journal := (r.render s pipeline configuration).journal.untraced } := by
  unfold render
  cases pipeline.beginRender with
  | error e => rfl
  | ok t =>
    have hplan : r.muted.plan configuration t pipeline.operations =
        r.plan configuration t pipeline.operations := rfl
    simp only [hplan, carryOut_muted, event_muted, phase_muted, line_muted, closing_muted]
    rfl

end Muted

lemma trace_render (htraced : r.traced = true) {pipeline : Pipeline ρ}
    (hbegin : pipeline.beginRender = .ok t) (s : Store ρ) (configuration : StreamConfiguration) :
    let plan := r.plan configuration t pipeline.operations
    let attempt := r.carryOut s t plan
    (r.render s pipeline configuration).journal.trace =
      [.start r.entity.name pipeline.operations.length,
        .phase r.entity.name .init pipeline.operations.length,
        .phase r.entity.name .optimize plan.optimized.length] ++
        (attempt.journal.trace ++ (r.closing attempt.result).trace) := by
  simp [render, hbegin, trace_event htraced]

/-- The trace of a render is empty if the pipeline refuses it. Otherwise it has the start and the
first three phases with the numbers of operations before and after optimization and after merging,
the failures of the merge passes in their order, and an ending that agrees with the result. Without
anybody to listen, the render does the same. -/
theorem trace_protocol (hr : r.registry = .standard r.entity) (htraced : r.traced = true)
    (s : Store ρ) (pipeline : Pipeline ρ) (configuration : StreamConfiguration) :
    let rendering := r.render s pipeline configuration
    let name := r.entity.name
    let n₀ := pipeline.operations.length
    let n₁ := (pipeline.optimize r.entity r.settings.optimizer).operations.length
    let merged := r.merged pipeline configuration
    let n₂ := merged.operations.length
    (pipeline.Refuses → rendering.journal.trace = []) ∧
      (¬pipeline.Refuses → rendering.pipeline.operations = merged.operations ∧
        ∃ ending, Closes name n₁ n₂ rendering.result ending ∧
          rendering.journal.trace =
            [.start name n₀, .phase name .init n₀, .phase name .optimize n₁,
              .phase name .buildQuery n₂] ++
              merged.outcome.failures.map (.loweringFailure name) ++ ending) ∧
      r.muted.render s pipeline configuration =
        { rendering with journal := { rendering.journal with trace := [] } } := by
  intro rendering name n₀ n₁ merged n₂
  refine ⟨fun hrefuses => ?_, fun hbegins => ?_, r.render_muted s pipeline configuration⟩
  · obtain ⟨cause, hrender⟩ := render_of_refuses hrefuses r s configuration
    exact congrArg (fun rendering => rendering.journal.trace) hrender
  · obtain ⟨t, hbegin⟩ := Pipeline.exists_beginRender hbegins
    obtain ⟨hresult, -, hleft, -⟩ := render_of_beginRender hbegin r s configuration
    obtain ⟨hoptimized, hremaining, hfailures, -⟩ := plan_merges hr hbegin configuration
    obtain ⟨ending, hcloses, hending⟩ := (course_carryOut r s t _).closes htraced
      (fun c hc => (plan_of_count hc).2) (length_plan hr hbegin configuration)
    rw [hremaining] at hcloses hleft
    refine ⟨hleft, ending, hresult ▸ hcloses, ?_⟩
    rw [trace_render htraced hbegin, hending, trace_planReport_of_traced htraced, hoptimized,
      hremaining, hfailures]
    rfl

theorem trace_protocol_records :
    let E := Entity.ofColumns "User" "id" ["id", "name"]
    let adult : Predicate Record := .column ⟨"id", .gte (.int 18)⟩
    let ops := [filter E adult, sortedBy E (.column "age" .ascending), limit 3]
    let pipeline := { Pipeline.ofOperations E ops with terminal? := some .collect }
    let r := { (Renderer.new E).withSettings ⟨false, true, .disabled⟩ with traced := true }
    let s := Store.new E [⟨[("id", .int 1)]⟩, ⟨[("id", .int 20)]⟩]
    let rendering := r.render s pipeline .standard
    r.registry = .standard r.entity ∧ r.traced = true ∧ ¬pipeline.Refuses ∧
      ∃ ending, Closes "User" 3 2 rendering.result ending ∧
        rendering.journal.trace =
          [.start "User" 3, .phase "User" .init 3, .phase "User" .optimize 3,
            .phase "User" .buildQuery 2, .loweringFailure "User" (.unknownColumn "User" "age")] ++
            ending := by
  intro E adult ops pipeline r s rendering
  have hbegins : ¬pipeline.Refuses := by
    rintro (hstate | hterminal)
    · exact hstate rfl
    · cases hterminal
  have hlength : (r.merged pipeline .standard).operations.length = 2 := by decide +kernel
  have hfailures : (r.merged pipeline .standard).outcome.failures =
      [.unknownColumn "User" "age"] := by decide +kernel
  obtain ⟨-, htrace, -⟩ := trace_protocol (r := r) rfl rfl s pipeline .standard
  obtain ⟨-, ending, hcloses, htrace⟩ := htrace hbegins
  rw [hlength] at hcloses htrace
  rw [hfailures] at htrace
  exact ⟨rfl, rfl, hbegins, ending, hcloses, htrace⟩

end Renderer
end Pushdown
