import Pushdown.Proofs.MergeSimulation
import Pushdown.Proofs.Squashing
import Pushdown.Render.Renderer

/-!
# Rendering

A render over a healthy store succeeds, and its result yields what replay makes of the store's rows
with all operations that are left after optimization, wherever each of them is carried out.
-/

namespace Pushdown

open Operation

variable {ρ : Type}

namespace StreamConfiguration

/-- The columns that are joined and projected belong to the entity. -/
def KnownTo (E : Entity ρ) (configuration : StreamConfiguration) : Prop :=
  (∀ j ∈ configuration.joins, E.hasColumn j.1 = true) ∧
    ∀ names, configuration.projection? = some names → ∀ column ∈ names, E.hasColumn column = true

lemma foldl_fetch (joins : List (String × JoinType)) (c : Criteria) :
    joins.foldl (fun c j => c.fetch j.1 j.2) c =
      { c with fetches := c.fetches ++ joins.map fun j => ⟨j.1, j.2⟩ } := by
  induction joins generalizing c with
  | nil => simp
  | cons j joins ih =>
    rw [List.foldl_cons, ih]
    simp [Criteria.fetch]

lemma criteria_eq (configuration : StreamConfiguration) (root : String) :
    configuration.criteria root =
      { Criteria.new root with
        selection := match configuration.projection? with
          | some names => .columns names
          | none => .root
        fetches := configuration.joins.map fun j => ⟨j.1, j.2⟩ } := by
  unfold criteria
  rw [foldl_fetch]
  cases configuration.projection? <;> rfl

end StreamConfiguration

namespace Store

variable {s : Store ρ} {configuration : StreamConfiguration}

/-- The columns that a query of the configuration names belong to the entity. -/
lemma knowsColumns_criteria (hknown : configuration.KnownTo s.entity) (root : String) :
    s.KnowsColumns (configuration.criteria root) := by
  intro column hcolumn
  obtain ⟨hjoins, hprojection⟩ := hknown
  rw [StreamConfiguration.criteria_eq] at hcolumn
  simp only [referencedColumns, Criteria.new, List.map_map, List.map_nil, List.append_nil] at hcolumn
  rcases List.mem_append.1 hcolumn with hcolumn | hcolumn
  · cases hnames : configuration.projection? with
    | none =>
      rw [hnames] at hcolumn
      cases hcolumn
    | some names =>
      rw [hnames] at hcolumn
      exact hprojection names hnames column hcolumn
  · obtain ⟨j, hj, rfl⟩ := List.mem_map.1 hcolumn
    exact hjoins j hj

lemma serves_criteria (hhealthy : s.failure? = none) (hknown : configuration.KnownTo s.entity)
    {q : Query} (hwindow : ∀ rows : List ρ, window q rows = rows) :
    s.Serves q (configuration.criteria s.entity.name) := by
  have hknows := knowsColumns_criteria hknown s.entity.name
  rw [StreamConfiguration.criteria_eq] at hknows ⊢
  refine ⟨refusal?_eq_none.2 ⟨hhealthy, rfl, hknows⟩, ?_, fun _ => hwindow⟩
  cases configuration.projection? with
  | none => nofun
  | some names => nofun

lemma select_criteria (s : Store ρ) (configuration : StreamConfiguration) (root : String) :
    s.select (configuration.criteria root) = s.rows := by
  rw [StreamConfiguration.criteria_eq]
  rfl

end Store

namespace Operation

lemma composed_of_replay? {ops : List (Operation ρ)} {flow flow' : Flow ρ}
    (h : replay? ops flow = some flow') : ∃ t, composed ops = .ok t ∧ t flow = flow' := by
  unfold replay? at h
  cases hops : composed ops with
  | error op =>
    rw [hops] at h
    cases h
  | ok t =>
    rw [hops] at h
    exact ⟨t, rfl, Option.some.inj h⟩

end Operation

namespace Pipeline

variable {p : Pipeline ρ} {t : Terminal ρ}

/-- The pipeline may not be rendered. -/
def Refuses (p : Pipeline ρ) : Prop := p.state ≠ .ready ∨ p.terminal? = none

lemma beginRender_eq_ok : p.beginRender = .ok t ↔ p.state = .ready ∧ p.terminal? = some t := by
  unfold beginRender
  cases p.state <;> cases p.terminal? <;> simp

lemma exists_beginRender (h : ¬p.Refuses) : ∃ t, p.beginRender = .ok t := by
  rw [Refuses, not_or, not_not] at h
  obtain ⟨t, ht⟩ := Option.ne_none_iff_exists'.1 h.2
  exact ⟨t, beginRender_eq_ok.2 ⟨h.1, ht⟩⟩

lemma beginRender_of_refuses (h : p.Refuses) :
    ∃ cause, p.beginRender = .error (.illegalState cause) := by
  unfold beginRender
  rcases h with h | h
  · cases hstate : p.state with
    | ready => exact absurd hstate h
    | rendered => exact ⟨_, rfl⟩
    | failed => exact ⟨_, rfl⟩
  · rw [h]
    cases p.state <;> exact ⟨_, rfl⟩

end Pipeline

namespace RenderResult

/-- The result has a flow for the terminal operation, or the number of its rows for a count if
nobody would see them go by. -/
structure Delivers (result : RenderResult ρ) (t : Terminal ρ) (flow : Flow ρ) : Prop where
  terminal_eq : result.terminal = t
  sequence_eq : result.sequence = .rows flow ∨
    t = .count ∧ flow.visits = [] ∧ result.sequence = .counted flow.rows.length

lemma Delivers.execute {result : RenderResult ρ} {t : Terminal ρ} {flow : Flow ρ}
    (h : result.Delivers t flow) (E : Entity ρ) :
    (result.execute E).answer = .ok (t.evaluate E flow) ∧
      (result.execute E).visits = (t.pulled E flow).visits := by
  obtain ⟨rfl, hrows | ⟨hcount, hquiet, hcounted⟩⟩ := h
  · rw [RenderResult.execute, hrows]
    exact ⟨rfl, rfl⟩
  · rw [RenderResult.execute, hcounted, hcount]
    exact ⟨rfl, hquiet.symm⟩

end RenderResult

namespace Request

/-- The criteria by which a request has the store check and select. -/
def criteria : Request → Criteria
  | count c => c
  | rows q => q.criteria

end Request

namespace Renderer

/-- A renderer with the factory and the registry that renderers have by default, under any
settings. -/
structure IsStandard (r : Renderer ρ) (E : Entity ρ) : Prop where
  entity_eq : r.entity = E
  factory_eq : r.factory = fun configuration => configuration.criteria E.name
  registry_eq : r.registry = .standard E

/-- A plan asks for what replay of all optimized operations would start from: for the number of
rows that they leave, or for rows that the remaining operations take to the same flow. -/
def Plans (s : Store ρ) (t : Terminal ρ) (plan : Plan ρ) : Prop :=
  match plan.request with
  | .count c => t = .count ∧ s.refusal? c = none ∧ ∃ rows,
      replay? plan.optimized (.ofRows s.rows) = some (.ofRows rows) ∧
        (s.select c).length = rows.length
  | .rows q => s.refusal? q.criteria = none ∧
      replay? plan.remaining (.ofRows (s.answer q)) = replay? plan.optimized (.ofRows s.rows)

variable {r : Renderer ρ} {s : Store ρ} {configuration : StreamConfiguration} {t : Terminal ρ}
  {ops : List (Operation ρ)}

/-- What the plan of a render under the standard factory and registry is. -/
lemma plan_eq (hr : r.IsStandard s.entity) :
    let optimized := optimize s.entity r.settings.optimizer (some t) ops
    let first := (Registry.standard s.entity).mergeCriteria optimized
      (configuration.criteria s.entity.name)
    let second := (Registry.standard s.entity).mergeQuery first.operations
      ((Query.ofCriteria first.target).extendHints configuration.hints)
    r.plan configuration t ops =
      if t.kind == .count && first.operations.isEmpty && r.settings.countFastPath then
        ⟨optimized, first.operations, .count first.target.toCount, first.outcome⟩
      else
        ⟨optimized, second.operations, .rows second.target,
          first.outcome.followedBy second.outcome⟩ := by
  unfold plan
  rw [hr.entity_eq, hr.factory_eq, hr.registry_eq]

/-- A plan asks for a number by the criteria that the criteria pass leaves, and for rows by the
query that a merge leaves. -/
lemma request_plan (hr : r.IsStandard s.entity) :
    let optimized := optimize s.entity r.settings.optimizer (some t) ops
    let c := configuration.criteria s.entity.name
    let first := (Registry.standard s.entity).mergeCriteria optimized c
    let q := (Query.ofCriteria c).extendHints configuration.hints
    (r.plan configuration t ops).request =
      if t.kind == .count && first.operations.isEmpty && r.settings.countFastPath then
        .count first.target.toCount
      else .rows ((Registry.standard s.entity).merge optimized q).target := by
  intro optimized c first q
  rw [plan_eq hr]
  split <;> rfl

lemma plans_plan (hr : r.IsStandard s.entity)
    (hprimary : s.entity.hasColumn s.entity.primaryKey = true) (hhealthy : s.failure? = none)
    (hknown : configuration.KnownTo s.entity) (hrows : s.rows.length < UInt64.size)
    (hops : ∀ op ∈ optimize s.entity r.settings.optimizer (some t) ops, op.Regular s.entity) :
    Plans s t (r.plan configuration t ops) := by
  let c := configuration.criteria s.entity.name
  let first := (Registry.standard s.entity).mergeCriteria
    (optimize s.entity r.settings.optimizer (some t) ops) c
  have hwindow : ∀ rows : List ρ, Store.window (Query.ofCriteria c) rows = rows := fun _ => rfl
  obtain ⟨hserves, hmem, hcriteria⟩ := Store.replay_mergeCriteria hprimary hops
    (Store.serves_criteria hhealthy hknown hwindow)
  have hanswered : s.answered (Query.ofCriteria c) c = s.rows := s.select_criteria configuration _
  rw [hanswered] at hcriteria
  rw [plan_eq hr]
  by_cases hfast : (t.kind == .count && first.operations.isEmpty &&
      r.settings.countFastPath) = true
  · rw [if_pos hfast]
    simp only [Bool.and_eq_true] at hfast
    obtain ⟨⟨hkind, hempty⟩, -⟩ := hfast
    have hcount : t = .count := by
      cases t with
      | count => rfl
      | _ => cases hkind
    have hnone : first.operations = [] := List.isEmpty_iff.1 hempty
    change replay? first.operations _ = _ at hcriteria
    rw [hnone] at hcriteria
    exact ⟨hcount, Store.refusal?_toCount hserves.accepted, s.select first.target,
      hcriteria.symm, s.length_select_toCount first.target⟩
  · rw [if_neg hfast]
    have haccepted : s.refusal?
        ((Query.ofCriteria first.target).extendHints configuration.hints).criteria = none :=
      hserves.accepted
    obtain ⟨haccepted', -, hquery⟩ :=
      Store.replay_mergeQuery hrows (regular_of_mem hops hmem) haccepted
    exact ⟨haccepted', hquery.trans hcriteria⟩

lemma optimized_plan (hr : r.IsStandard s.entity) (configuration : StreamConfiguration) :
    (r.plan configuration t ops).optimized =
      optimize s.entity r.settings.optimizer (some t) ops := by
  rw [plan_eq hr]
  split <;> rfl

/-- What comes of a plan that asks for a number. -/
lemma result_carryOut_count {plan : Plan ρ} {c : Criteria} (h : plan.request = .count c) :
    (r.carryOut s t plan).result =
      match s.refusal? c with
      | some e => .error (.store e)
      | none => .ok ⟨.counted (s.select c).length, t, plan.summary⟩ := by
  unfold carryOut Store.count
  simp only [h]
  cases s.refusal? c <;> rfl

/-- What comes of a plan that asks for rows. -/
lemma result_carryOut_rows {plan : Plan ρ} {q : Query} (h : plan.request = .rows q) :
    (r.carryOut s t plan).result =
      match composed plan.remaining with
      | .error op => .error (.unsupported (.noReplay op.display))
      | .ok replay =>
        match s.refusal? q.criteria with
        | some e => .error (.store e)
        | none => .ok ⟨.rows (replay (.ofRows (s.answer q))), t, plan.summary⟩ := by
  unfold carryOut Store.execute
  simp only [h]
  cases composed plan.remaining with
  | error op => rfl
  | ok replay => cases s.refusal? q.criteria <;> rfl

/-- How it ends to carry out a plan: an operation cannot be replayed, the store refuses the request,
or there is a result, which has a number or rows. -/
inductive Ends (s : Store ρ) (t : Terminal ρ) (plan : Plan ρ) : Attempt ρ → Prop
  | unreplayable {op : Operation ρ} {journal : Journal}
      (hcomposed : composed plan.remaining = .error op) (hrows : ∃ q, plan.request = .rows q) :
      Ends s t plan ⟨.error (.unsupported (.noReplay op.display)), s, journal⟩
  | refused {e : StoreError} {journal : Journal}
      (hrefusal : s.refusal? plan.request.criteria = some e) :
      Ends s t plan ⟨.error (.store e), s, journal⟩
  | counted {n : Nat} {store : Store ρ} {journal : Journal}
      (haccepted : s.refusal? plan.request.criteria = none)
      (hcount : ∃ c, plan.request = .count c) :
      Ends s t plan ⟨.ok ⟨.counted n, t, plan.summary⟩, store, journal⟩
  | replayed {flow : Flow ρ} {store : Store ρ} {journal : Journal}
      (haccepted : s.refusal? plan.request.criteria = none) :
      Ends s t plan ⟨.ok ⟨.rows flow, t, plan.summary⟩, store, journal⟩

/-- How it goes to carry out a plan: what comes of it, the store that it leaves, and what is reported
on the way. -/
inductive Course (r : Renderer ρ) (s : Store ρ) (t : Terminal ρ) (plan : Plan ρ) : Attempt ρ → Prop
  | unreplayable {q : Query} {op : Operation ρ} (hrequest : plan.request = .rows q)
      (hcomposed : composed plan.remaining = .error op) :
      Course r s t plan ⟨.error (.unsupported (.noReplay op.display)), s, r.planReport plan⟩
  | uncounted {c : Criteria} {e : StoreError} (hrequest : plan.request = .count c)
      (hrefusal : s.refusal? c = some e) :
      Course r s t plan ⟨.error (.store e), s, r.planReport plan ++ r.phase .execute 0⟩
  | unanswered {q : Query} {e : StoreError} (hrequest : plan.request = .rows q)
      (hrefusal : s.refusal? q.criteria = some e) :
      Course r s t plan
        ⟨.error (.store e), s, r.planReport plan ++ r.phase .execute plan.remaining.length⟩
  | counted {c : Criteria} {line : String} (hrequest : plan.request = .count c)
      (haccepted : s.refusal? c = none) :
      Course r s t plan
        { result := .ok ⟨.counted (s.select c).length, t, plan.summary⟩
          store := { s with counts := s.counts + 1 }
          journal := r.planReport plan ++ r.phase .execute 0 ++
            (.ofLine s.debug line ++ .ofMetrics (.storeExecution s.entity.name s.rows.length)) }
  | replayed {q : Query} {replay : Transform ρ} {line : String} (hrequest : plan.request = .rows q)
      (hcomposed : composed plan.remaining = .ok replay) (haccepted : s.refusal? q.criteria = none) :
      Course r s t plan
        { result := .ok ⟨.rows (replay (.ofRows (s.answer q))), t, plan.summary⟩
          store := { s with executions := s.executions + 1, lastQuery? := some q }
          journal := r.planReport plan ++ r.phase .execute plan.remaining.length ++
            (.ofLine s.debug line ++ .ofMetrics (.storeExecution s.entity.name s.rows.length)) ++
            r.phase .replay plan.remaining.length }

lemma course_carryOut (r : Renderer ρ) (s : Store ρ) (t : Terminal ρ) (plan : Plan ρ) :
    Course r s t plan (r.carryOut s t plan) := by
  unfold carryOut Store.count Store.execute
  cases hrequest : plan.request with
  | count c =>
    simp only
    cases hrefusal : s.refusal? c with
    | some e =>
      rw [Journal.append_empty]
      exact .uncounted hrequest hrefusal
    | none => exact .counted hrequest hrefusal
  | rows q =>
    simp only
    cases hcomposed : composed plan.remaining with
    | error op => exact .unreplayable hrequest hcomposed
    | ok replay =>
      simp only
      cases hrefusal : s.refusal? q.criteria with
      | some e =>
        rw [Journal.append_empty]
        exact .unanswered hrequest hrefusal
      | none => exact .replayed hrequest hcomposed hrefusal

lemma Course.ends {plan : Plan ρ} {attempt : Attempt ρ} (h : Course r s t plan attempt) :
    Ends s t plan attempt := by
  cases h with
  | unreplayable hrequest hcomposed => exact .unreplayable hcomposed ⟨_, hrequest⟩
  | uncounted hrequest hrefusal => exact .refused (by rwa [hrequest])
  | unanswered hrequest hrefusal => exact .refused (by rwa [hrequest])
  | counted hrequest haccepted => exact .counted (by rwa [hrequest]) ⟨_, hrequest⟩
  | replayed hrequest hcomposed haccepted => exact .replayed (by rwa [hrequest])

lemma ends_carryOut (r : Renderer ρ) (s : Store ρ) (t : Terminal ρ) (plan : Plan ρ) :
    Ends s t plan (r.carryOut s t plan) :=
  (course_carryOut r s t plan).ends

/-- An error of the store comes up only where it refuses the request. -/
lemma refusal_of_carryOut {plan : Plan ρ} {e : StoreError}
    (h : (r.carryOut s t plan).result = .error (.store e)) :
    s.refusal? plan.request.criteria = some e := by
  have hends := ends_carryOut r s t plan
  generalize r.carryOut s t plan = attempt at h hends
  cases hends with
  | unreplayable => cases h
  | refused hrefusal =>
    cases h
    exact hrefusal
  | counted => cases h
  | replayed => cases h

/-- A plan that asks for the right rows is carried out, and its result has the flow. -/
lemma carryOut_delivers {plan : Plan ρ} {flow : Flow ρ} (hplans : Plans s t plan)
    (hflow : replay? plan.optimized (.ofRows s.rows) = some flow) :
    ∃ result, (r.carryOut s t plan).result = .ok result ∧ result.Delivers t flow := by
  unfold Plans at hplans
  cases hrequest : plan.request with
  | count c =>
    simp only [hrequest] at hplans
    obtain ⟨hcount, haccepted, rows, hreplay, hlength⟩ := hplans
    obtain rfl : flow = .ofRows rows := Option.some.inj (hflow.symm.trans hreplay)
    refine ⟨⟨.counted (s.select c).length, t, plan.summary⟩, ?_, rfl,
      Or.inr ⟨hcount, Flow.visits_ofRows rows, ?_⟩⟩
    · rw [result_carryOut_count hrequest, haccepted]
    · rw [hlength, Flow.rows_ofRows]
  | rows q =>
    simp only [hrequest] at hplans
    obtain ⟨haccepted, hreplay⟩ := hplans
    obtain ⟨replay, hcomposed, happly⟩ := composed_of_replay? (hreplay.trans hflow)
    refine ⟨⟨.rows (replay (.ofRows (s.answer q))), t, plan.summary⟩, ?_, rfl, Or.inl ?_⟩
    · rw [result_carryOut_rows hrequest, hcomposed, haccepted]
    · rw [happly]

/-- A render that is refused changes nothing. -/
lemma render_of_refuses {pipeline : Pipeline ρ} (h : pipeline.Refuses) (r : Renderer ρ)
    (s : Store ρ) (configuration : StreamConfiguration) :
    ∃ cause, r.render s pipeline configuration =
      ⟨.error (.illegalState cause), pipeline, s, .empty⟩ := by
  obtain ⟨cause, hbegin⟩ := Pipeline.beginRender_of_refuses h
  exact ⟨cause, by rw [render, hbegin]⟩

/-- What a render comes to that may begin. -/
lemma render_of_beginRender {pipeline : Pipeline ρ} (hbegin : pipeline.beginRender = .ok t)
    (r : Renderer ρ) (s : Store ρ) (configuration : StreamConfiguration) :
    let plan := r.plan configuration t pipeline.operations
    let attempt := r.carryOut s t plan
    let rendering := r.render s pipeline configuration
    rendering.result = attempt.result ∧ rendering.store = attempt.store ∧
      rendering.pipeline.operations = plan.remaining ∧
      rendering.pipeline.state =
        (match attempt.result with | .ok _ => .rendered | .error _ => .failed) := by
  intro plan attempt rendering
  simp only [rendering, render, hbegin]
  exact ⟨rfl, rfl, rfl, rfl⟩

/-- A render delivers what replay of all optimized operations makes of the store's rows. -/
theorem render_delivers (hr : r.IsStandard s.entity)
    (hprimary : s.entity.hasColumn s.entity.primaryKey = true) (hhealthy : s.failure? = none)
    (hknown : configuration.KnownTo s.entity) (hrows : s.rows.length < UInt64.size)
    {pipeline : Pipeline ρ} (hready : pipeline.state = .ready) (ht : pipeline.terminal? = some t)
    (hops : ∀ op ∈ optimize s.entity r.settings.optimizer (some t) pipeline.operations,
      op.Regular s.entity)
    {flow : Flow ρ} (hflow : replay? (optimize s.entity r.settings.optimizer (some t)
      pipeline.operations) (.ofRows s.rows) = some flow) :
    ∃ result, (r.render s pipeline configuration).result = .ok result ∧
      result.Delivers t flow := by
  obtain ⟨hresult, -⟩ := render_of_beginRender (Pipeline.beginRender_eq_ok.2 ⟨hready, ht⟩) r s
    configuration
  rw [← optimized_plan hr configuration] at hflow
  rw [hresult]
  exact carryOut_delivers (plans_plan hr hprimary hhealthy hknown hrows hops) hflow

end Renderer
end Pushdown
