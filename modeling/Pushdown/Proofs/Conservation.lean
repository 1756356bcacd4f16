import Mathlib.Algebra.GroupWithZero.Nat
import Pushdown.Proofs.Journals
import Pushdown.Render.Session

/-!
# Conservation of metrics

The renderer and the store report to the same counters without knowing of each other. Still the
books agree: each render that begins ends with an error or with one call to the store that the store
has counted too, and each optimized operation of a render that succeeds is pushed down or replayed.
The totals are the sums over all entities, whoever reports in whatever order. The counters are
natural numbers, so none of them runs over.
-/

namespace Pushdown

variable {ρ : Type}

namespace Counters

/-- The counters one by one. -/
def fields : List (Counters → Nat) :=
  [renders, renderErrors, countFastPath, operationsPushed, operationsReplayed, loweringFailures,
    storeExecutions, rowsScanned]

lemma zero_of_mem_fields : ∀ field ∈ fields, field zero = 0 := by
  simp [fields, zero]

lemma add_of_mem_fields : ∀ field ∈ fields, ∀ a b, field (add a b) = field a + field b := by
  simp [fields, add]

@[simp]
lemma add_zero (a : Counters) : a.add zero = a := by
  simp [add, zero]

@[simp]
lemma zero_add (a : Counters) : zero.add a = a := by
  simp [add, zero]

lemma add_assoc (a b c : Counters) : (a.add b).add c = a.add (b.add c) := by
  simp [add, Nat.add_assoc]

end Counters

namespace MetricsEvent

/-- What events count for together. -/
def tally : List MetricsEvent → Counters
  | [] => .zero
  | e :: es => e.counters.add (tally es)

lemma tally_append (es es' : List MetricsEvent) :
    tally (es ++ es') = (tally es).add (tally es') := by
  induction es with
  | nil => exact (Counters.zero_add _).symm
  | cons e es ih => rw [List.cons_append, tally, tally, ih, Counters.add_assoc]

lemma tally_replicate (n : Nat) (name : String) :
    tally (.replicate n (.loweringFailure name)) = { Counters.zero with loweringFailures := n } := by
  induction n with
  | zero => rfl
  | succ n ih =>
    rw [List.replicate_succ, tally, ih]
    simp [counters, Counters.add, Counters.zero, Nat.add_comm]

end MetricsEvent

namespace MetricsReport

open MetricsEvent

variable {r : MetricsReport}

/-- The counters of an entity, which are zero as long as nothing is recorded of it. -/
def entry (r : MetricsReport) (name : String) : Counters := (r.entities.find? name).getD .zero

/-- Each counter in total is the sum of that counter over all entities. -/
def Balanced (r : MetricsReport) : Prop :=
  ∀ field ∈ Counters.fields, field r.totals = (r.entities.toList.map fun e => field e.2).sum

lemma sum_alterIn {field : Counters → Nat} (hfield : field ∈ Counters.fields) (name : String)
    (c : Counters) (es : List (String × Counters)) :
    ((Entries.alterIn name (fun v => (v.getD .zero).add c) es).map fun e => field e.2).sum =
      (es.map fun e => field e.2).sum + field c := by
  have hadd := Counters.add_of_mem_fields field hfield
  induction es with
  | nil => simp [Entries.alterIn]
  | cons e es ih =>
    obtain ⟨name', v⟩ := e
    rw [Entries.alterIn]
    split
    · simp
      omega
    · simp [hadd]
      omega
    · simp [ih]
      omega

lemma balanced_empty : empty.Balanced := by
  intro field hfield
  exact Counters.zero_of_mem_fields field hfield

lemma Balanced.record (h : r.Balanced) (e : MetricsEvent) : (r.record e).Balanced := by
  intro field hfield
  calc field (r.totals.add e.counters)
      = field r.totals + field e.counters := Counters.add_of_mem_fields field hfield _ _
    _ = (r.entities.toList.map fun e => field e.2).sum + field e.counters := by
      rw [h field hfield]
    _ = ((r.record e).entities.toList.map fun e => field e.2).sum :=
      (sum_alterIn hfield e.entity e.counters r.entities.toList).symm

lemma Balanced.recordAll (h : r.Balanced) (events : List MetricsEvent) :
    (r.recordAll events).Balanced := by
  induction events generalizing r with
  | nil => exact h
  | cons e events ih => exact ih (h.record e)

lemma entry_record_self (h : r.entities.Ordered) (e : MetricsEvent) :
    (r.record e).entry e.entity = (r.entry e.entity).add e.counters := by
  rw [entry, record, Entries.find?_adjust_self h]
  rfl

lemma entry_record_of_ne {e : MetricsEvent} {name : String} (h : e.entity ≠ name) :
    (r.record e).entry name = r.entry name := by
  rw [entry, record, Entries.find?_adjust_of_ne _ h.symm]
  rfl

lemma ordered_record (h : r.entities.Ordered) (e : MetricsEvent) :
    (r.record e).entities.Ordered :=
  h.adjust _ _ _

/-- The counters of an entity grow by what its events count for. -/
lemma entry_recordAll (h : r.entities.Ordered) {name : String} {events : List MetricsEvent}
    (hown : ∀ e ∈ events, e.entity = name) :
    (r.recordAll events).entities.Ordered ∧
      (r.recordAll events).entry name = (r.entry name).add (tally events) := by
  induction events generalizing r with
  | nil => exact ⟨h, (Counters.add_zero _).symm⟩
  | cons e events ih =>
    obtain ⟨rfl, hown⟩ := List.forall_mem_cons.1 hown
    obtain ⟨hordered, hentry⟩ := ih (ordered_record h e) hown
    refine ⟨hordered, hentry.trans ?_⟩
    rw [entry_record_self h, Counters.add_assoc]
    rfl

end MetricsReport

namespace Store

/-- The counters `c` account for what turns the store `s` into `s'`, with `n` operations in the
renders that succeed meanwhile. -/
structure Accounts (s s' : Store ρ) (c : Counters) (n : Nat) : Prop where
  entity_eq : s'.entity = s.entity
  rows_eq : s'.rows = s.rows
  renders_eq : c.renders = c.renderErrors + c.storeExecutions
  calls_eq : s'.executions + s'.counts = s.executions + s.counts + c.storeExecutions
  counts_eq : s'.counts = s.counts + c.countFastPath
  rowsScanned_eq : c.rowsScanned = s.rows.length * c.storeExecutions
  operations_eq : c.operationsPushed + c.operationsReplayed = n

lemma Accounts.refl (s : Store ρ) : s.Accounts s .zero 0 where
  entity_eq := rfl
  rows_eq := rfl
  renders_eq := rfl
  calls_eq := rfl
  counts_eq := rfl
  rowsScanned_eq := rfl
  operations_eq := rfl

/-- A render that fails leaves the store as it was. -/
lemma accounts_failure (s : Store ρ) (failures : Nat) :
    s.Accounts s ⟨1, 1, 0, 0, 0, failures, 0, 0⟩ 0 where
  entity_eq := rfl
  rows_eq := rfl
  renders_eq := rfl
  calls_eq := rfl
  counts_eq := rfl
  rowsScanned_eq := rfl
  operations_eq := rfl

lemma Accounts.trans {s s' s'' : Store ρ} {c c' : Counters} {n n' : Nat} (h : s.Accounts s' c n)
    (h' : s'.Accounts s'' c' n') : s.Accounts s'' (c.add c') (n + n') := by
  obtain ⟨hentity, hrows, hrenders, hcalls, hcounts, hscanned, hoperations⟩ := h
  obtain ⟨hentity', hrows', hrenders', hcalls', hcounts', hscanned', hoperations'⟩ := h'
  have hboth : c.rowsScanned + c'.rowsScanned =
      s.rows.length * (c.storeExecutions + c'.storeExecutions) := by
    rw [hscanned, hscanned', hrows, Nat.mul_add]
  refine ⟨hentity'.trans hentity, hrows'.trans hrows, ?_, ?_, ?_, hboth, ?_⟩
  all_goals
    simp only [Counters.add]
    omega

end Store

namespace Renderer

open MetricsEvent

variable {r : Renderer ρ} {s : Store ρ} {t : Terminal ρ} {plan : Plan ρ} {attempt : Attempt ρ}

/-- What a render reports for the counters after `failures` failures to lower. The store reports a
call that it accepts, and a render that fails gets no further. -/
def reported (r : Renderer ρ) (s : Store ρ) (failures : Nat)
    (result : Except RenderError (RenderResult ρ)) : List MetricsEvent :=
  .renderStart r.entity.name ::
    (.replicate failures (.loweringFailure r.entity.name) ++
      match result with
      | .ok result =>
        [.storeExecution s.entity.name s.rows.length, .renderFinish r.entity.name
          result.summary.pushed result.summary.replayed result.summary.countFastPath]
      | .error e => [.renderError r.entity.name e.errorClass])

lemma Course.metrics_eq (h : Course r s t plan attempt) :
    .renderStart r.entity.name :: (attempt.journal.metrics ++ (r.closing attempt.result).metrics) =
      r.reported s plan.outcome.failures.length attempt.result := by
  cases h <;> simp [reported, closing, metrics_planReport]

lemma entity_of_mem_reported (hname : s.entity.name = r.entity.name) (failures : Nat)
    (result : Except RenderError (RenderResult ρ)) :
    ∀ e ∈ r.reported s failures result, e.entity = r.entity.name := by
  refine List.forall_mem_cons.2 ⟨rfl, fun e he => ?_⟩
  rcases List.mem_append.1 he with he | he
  · obtain rfl := List.eq_of_mem_replicate he
    rfl
  · cases result with
    | ok result =>
      simp only [List.mem_cons, List.not_mem_nil, or_false] at he
      rcases he with rfl | rfl
      · exact hname
      · rfl
    | error e' =>
      obtain rfl := List.mem_singleton.1 he
      rfl

lemma tally_reported_error (failures : Nat) (e : RenderError) :
    tally (r.reported s failures (.error e)) = ⟨1, 1, 0, 0, 0, failures, 0, 0⟩ := by
  rw [reported, tally, tally_append, tally_replicate]
  simp [tally, counters, Counters.add, Counters.zero]

lemma tally_reported_ok (failures : Nat) (result : RenderResult ρ) :
    tally (r.reported s failures (.ok result)) =
      ⟨1, 0, if result.summary.countFastPath then 1 else 0, result.summary.pushed,
        result.summary.replayed, failures, 1, s.rows.length⟩ := by
  rw [reported, tally, tally_append, tally_replicate]
  simp [tally, counters, Counters.add, Counters.zero]

/-- What is reported accounts for what the store has counted. -/
lemma Course.accounts (h : Course r s t plan attempt) (failures : Nat) :
    s.Accounts attempt.store (tally (r.reported s failures attempt.result))
      (match attempt.result with
        | .ok _ => plan.outcome.removed + plan.remaining.length
        | .error _ => 0) := by
  cases h with
  | unreplayable | uncounted | unanswered =>
    rw [tally_reported_error]
    exact s.accounts_failure failures
  | counted hrequest haccepted =>
    rw [tally_reported_ok, Plan.countFastPath_of_count hrequest]
    exact ⟨rfl, rfl, rfl, rfl, rfl, (Nat.mul_one _).symm, rfl⟩
  | replayed hrequest hcomposed haccepted =>
    rw [tally_reported_ok, Plan.countFastPath_of_rows hrequest]
    exact ⟨rfl, rfl, rfl, Nat.add_right_comm _ _ _, rfl, (Nat.mul_one _).symm, rfl⟩

/-- A render reports what accounts for what it does. -/
lemma accounts_render (hr : r.registry = .standard r.entity)
    (hname : s.entity.name = r.entity.name) (pipeline : Pipeline ρ)
    (configuration : StreamConfiguration) :
    let rendering := r.render s pipeline configuration
    s.Accounts rendering.store (tally rendering.journal.metrics)
        (match rendering.result with
          | .ok _ => (pipeline.optimize r.entity r.settings.optimizer).operations.length
          | .error _ => 0) ∧
      ∀ e ∈ rendering.journal.metrics, e.entity = r.entity.name := by
  intro rendering
  by_cases hrefuses : pipeline.Refuses
  · obtain ⟨cause, hrender⟩ := render_of_refuses hrefuses r s configuration
    simp only [rendering, hrender]
    exact ⟨Store.Accounts.refl s, nofun⟩
  · obtain ⟨t, hbegin⟩ := Pipeline.exists_beginRender hrefuses
    let plan := r.plan configuration t pipeline.operations
    obtain ⟨hresult, hstore, -⟩ := render_of_beginRender hbegin r s configuration
    have hcourse := course_carryOut r s t plan
    have hmetrics : rendering.journal.metrics =
        r.reported s plan.outcome.failures.length rendering.result := by
      rw [show rendering.result = _ from hresult, ← hcourse.metrics_eq]
      simp [rendering, render, hbegin, plan]
    have haccounts := hcourse.accounts plan.outcome.failures.length
    rw [length_plan hr hbegin configuration] at haccounts
    rw [hmetrics, show rendering.store = _ from hstore, show rendering.result = _ from hresult]
    exact ⟨haccounts, entity_of_mem_reported hname _ _⟩

end Renderer

namespace Session

/-- The step renders under the standard registry of the entity, or is about another entity. -/
def Step.Fits (E : Entity ρ) : Step ρ → Prop
  | .render r _ _ => r.entity = E ∧ r.registry = .standard E
  | .elsewhere e => e.entity ≠ E.name

variable {σ : Session ρ}

/-- One step adds to the entry of the entity what accounts for the step. -/
lemma step_accounts (hordered : σ.report.entities.Ordered) {step : Step ρ}
    (hfits : step.Fits σ.store.entity) :
    (σ.step step).report.entities.Ordered ∧ ∃ c,
      σ.store.Accounts (σ.step step).store c (σ.optimizedIn step) ∧
        (σ.step step).report.entry σ.store.entity.name =
          (σ.report.entry σ.store.entity.name).add c := by
  cases step with
  | render r pipeline configuration =>
    obtain ⟨hentity, hregistry⟩ := hfits
    rw [← hentity] at hregistry ⊢
    obtain ⟨haccounts, hown⟩ :=
      Renderer.accounts_render hregistry (by rw [hentity]) pipeline configuration
    obtain ⟨hordered', hentry⟩ := MetricsReport.entry_recordAll hordered hown
    exact ⟨hordered', _, haccounts, hentry⟩
  | elsewhere e =>
    refine ⟨MetricsReport.ordered_record hordered e, .zero, Store.Accounts.refl σ.store, ?_⟩
    exact (MetricsReport.entry_record_of_ne hfits).trans (Counters.add_zero _).symm

/-- So does a run, by induction on its steps. -/
lemma run_accounts (hordered : σ.report.entities.Ordered) {steps : List (Step ρ)}
    (hfits : ∀ step ∈ steps, step.Fits σ.store.entity) :
    ∃ c, σ.store.Accounts (σ.run steps).store c (σ.optimizedThrough steps) ∧
      (σ.run steps).report.entry σ.store.entity.name =
        (σ.report.entry σ.store.entity.name).add c := by
  induction steps generalizing σ with
  | nil => exact ⟨.zero, Store.Accounts.refl σ.store, (Counters.add_zero _).symm⟩
  | cons step steps ih =>
    obtain ⟨hstep, hsteps⟩ := List.forall_mem_cons.1 hfits
    obtain ⟨hordered', c, haccounts, hentry⟩ := step_accounts hordered hstep
    rw [← haccounts.entity_eq] at hsteps
    obtain ⟨c', haccounts', hentry'⟩ := ih hordered' hsteps
    refine ⟨c.add c', haccounts.trans haccounts', ?_⟩
    rw [haccounts.entity_eq, hentry, Counters.add_assoc] at hentry'
    exact hentry'

lemma balanced_step (h : σ.report.Balanced) (step : Step ρ) : (σ.step step).report.Balanced := by
  cases step with
  | render r pipeline configuration => exact h.recordAll _
  | elsewhere e => exact h.record e

lemma balanced_run (h : σ.report.Balanced) (steps : List (Step ρ)) :
    (σ.run steps).report.Balanced := by
  induction steps generalizing σ with
  | nil => exact h
  | cons step steps ih => exact ih (balanced_step h step)

/-- After any renders on a fresh store, and whatever is reported of other entities in between, the
entry of the store's entity agrees with what the store has counted, and with the optimized
operations of the renders that succeeded. After any events at all, the totals are the sums over the
entities. -/
theorem metrics_conserved {s : Store ρ} (hexecutions : s.executions = 0) (hcounts : s.counts = 0)
    {steps : List (Step ρ)} (hfits : ∀ step ∈ steps, step.Fits s.entity) :
    let σ := (start s).run steps
    let c := σ.report.entry s.entity.name
    c.renders = c.renderErrors + c.storeExecutions ∧
      c.storeExecutions = σ.store.executions + σ.store.counts ∧
      c.countFastPath = σ.store.counts ∧
      c.rowsScanned = s.rows.length * c.storeExecutions ∧
      c.operationsPushed + c.operationsReplayed = (start s).optimizedThrough steps ∧
      σ.report.Balanced ∧
      ∀ events, (MetricsReport.empty.recordAll events).Balanced := by
  intro σ c
  obtain ⟨c', haccounts, hentry⟩ := run_accounts (σ := start s) Entries.ordered_empty hfits
  obtain rfl : c = c' := hentry.trans (Counters.zero_add c')
  have hcalls : σ.store.executions + σ.store.counts =
      s.executions + s.counts + c.storeExecutions := haccounts.calls_eq
  have hcount : σ.store.counts = s.counts + c.countFastPath := haccounts.counts_eq
  have hbalanced : (start s).report.Balanced := MetricsReport.balanced_empty
  exact ⟨haccounts.renders_eq, by omega, by omega, haccounts.rowsScanned_eq,
    haccounts.operations_eq, balanced_run hbalanced steps, MetricsReport.balanced_empty.recordAll⟩

theorem metrics_conserved_records :
    let E := Entity.ofColumns "User" "id" ["id", "name"]
    let s := Store.new E [⟨[("id", .int 1)]⟩, ⟨[("id", .int 20)]⟩]
    let r := (Renderer.new E).withSettings ⟨false, true, .disabled⟩
    let adults := Pipeline.ofOperations E [.filter E (.column ⟨"id", .gte (.int 18)⟩)]
    let pivoted := Pipeline.ofOperations E [.limit 1, .custom "pivot"]
    let steps := [.render r { adults with terminal? := some .count } .standard,
      .elsewhere (.renderStart "Order"), .render r adults .standard,
      .render r { pivoted with terminal? := some .collect } .standard,
      .render r { adults with terminal? := some .collect } .standard]
    let σ := (start s).run steps
    let c := σ.report.entry s.entity.name
    s.executions = 0 ∧ s.counts = 0 ∧ (∀ step ∈ steps, step.Fits s.entity) ∧
      c = ⟨3, 1, 1, 2, 0, 0, 2, 4⟩ ∧ c.rowsScanned = s.rows.length * c.storeExecutions ∧
      c.operationsPushed + c.operationsReplayed = (start s).optimizedThrough steps ∧
      σ.report.Balanced := by
  intro E s r adults pivoted steps σ c
  have hother : "Order" ≠ "User" := by decide
  have hr : r.entity = s.entity ∧ r.registry = .standard s.entity := ⟨rfl, rfl⟩
  have hfits : ∀ step ∈ steps, step.Fits s.entity := by
    simp only [steps, List.forall_mem_cons]
    exact ⟨hr, hother, hr, hr, hr, List.forall_mem_nil _⟩
  have hcounters : c = ⟨3, 1, 1, 2, 0, 0, 2, 4⟩ := by decide +kernel
  obtain ⟨-, -, -, hrows, hoperations, hbalanced, -⟩ := metrics_conserved (s := s) rfl rfl hfits
  exact ⟨rfl, rfl, hfits, hcounters, hrows, hoperations, hbalanced⟩

end Session
end Pushdown
