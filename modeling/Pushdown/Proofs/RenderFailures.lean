import Pushdown.Proofs.Remainders
import Pushdown.Proofs.Rendering
import Pushdown.Render.Stream

/-!
# Failing renders

A render fails if it may not begin, if an operation cannot be replayed, or if the store rejects the
query, in this order. Whether an operation cannot be replayed shows before anything is rewritten. A
failing render leaves the store as it was.
-/

namespace Pushdown

variable {ρ : Type}

namespace Request

/-- The store answers the request with an error. -/
def RejectedBy (s : Store ρ) (e : StoreError) : Request → Prop
  | count c => (s.count c).answer = .error e
  | rows q => (s.execute q).answer = .error e

lemma rejectedBy_iff {s : Store ρ} {e : StoreError} {request : Request} :
    request.RejectedBy s e ↔ s.refusal? request.criteria = some e := by
  cases request with
  | count c =>
    rw [RejectedBy, Store.count, criteria]
    cases s.refusal? c <;> simp
  | rows q =>
    rw [RejectedBy, Store.execute, criteria]
    cases s.refusal? q.criteria <;> simp

end Request

namespace Renderer

open Operation

/-- The render does the same whatever the store, which is handed back as it was. -/
def CallsNoStore (r : Renderer ρ) (pipeline : Pipeline ρ) (configuration : StreamConfiguration) :
    Prop :=
  ∀ s s' : Store ρ, r.render s' pipeline configuration =
    { r.render s pipeline configuration with store := s' }

variable {r : Renderer ρ} {s : Store ρ} {configuration : StreamConfiguration} {t : Terminal ρ}
  {ops : List (Operation ρ)} {pipeline : Pipeline ρ} {plan : Plan ρ}

lemma leaves_plan (hr : r.registry = .standard r.entity) (configuration : StreamConfiguration)
    (t : Terminal ρ) (ops : List (Operation ρ)) :
    let plan := r.plan configuration t ops
    plan.outcome.Leaves r.entity (optimize r.entity r.settings.optimizer (some t) ops)
      plan.remaining := by
  intro plan
  unfold plan Renderer.plan
  rw [hr]
  simp only
  split
  · exact Registry.leaves_mergeCriteria r.entity _ _
  · exact Registry.leaves_merge r.entity _ ((Query.ofCriteria _).extendHints _)

/-- Whether an operation cannot be replayed shows before and after the passes alike. -/
lemma unreplayable_plan (hr : r.registry = .standard r.entity)
    (hops : ∀ op ∈ unreplayable ops, op.IsCustom) (configuration : StreamConfiguration)
    (t : Terminal ρ) :
    unreplayable (r.plan configuration t ops).remaining = unreplayable ops := by
  have hoptimized := unreplayable_optimize (E := r.entity) r.settings.optimizer t hops
  rw [← hoptimized] at hops
  unfold Renderer.plan
  rw [hr, ← hoptimized]
  simp only
  split
  · rw [(Registry.mergeCriteria_standard r.entity _ _).1]
    exact Registry.unreplayable_absorbCriteria r.entity hops _
  · exact Registry.unreplayable_merge r.entity hops ((Query.ofCriteria _).extendHints _)

/-- A number is asked for only by a count of which nothing is left for replay. -/
lemma plan_of_count {c : Criteria} (h : (r.plan configuration t ops).request = .count c) :
    t = .count ∧ (r.plan configuration t ops).remaining = [] := by
  unfold Renderer.plan at h ⊢
  simp only at h ⊢
  split at h
  · rename_i hfast
    rw [if_pos hfast]
    simp only [Bool.and_eq_true] at hfast
    refine ⟨?_, List.isEmpty_iff.1 hfast.1.2⟩
    cases t with
    | count => rfl
    | _ => cases hfast.1.1
  · cases h

lemma carryOut_of_unreplayable {q : Query} (hrequest : plan.request = .rows q) {op : Operation ρ}
    (hcomposed : composed plan.remaining = .error op) (s : Store ρ) :
    r.carryOut s t plan = ⟨.error (.unsupported (.noReplay op.display)), s, r.planReport plan⟩ := by
  rw [carryOut, hrequest]
  simp only [hcomposed]

/-- An attempt that fails leaves the store as it was. -/
lemma Ends.store_eq {attempt : Attempt ρ} (h : Ends s t plan attempt) {e : RenderError}
    (he : attempt.result = .error e) : attempt.store = s := by
  cases h with
  | unreplayable | refused => rfl
  | counted | replayed => cases he

/-- Only a pipeline refuses a render; an attempt does not. -/
lemma Ends.ne_illegalState {attempt : Attempt ρ} (h : Ends s t plan attempt) (cause : Misuse) :
    attempt.result ≠ .error (.illegalState cause) := by
  cases h <;> nofun

/-- A plan whose remaining operations can all be replayed fails just if the store refuses its
request. -/
lemma Ends.result_cases {attempt : Attempt ρ} (h : Ends s t plan attempt) {replay : Transform ρ}
    (hcomposed : composed plan.remaining = .ok replay) :
    (∃ e, s.refusal? plan.request.criteria = some e ∧ attempt.result = .error (.store e)) ∨
      s.refusal? plan.request.criteria = none ∧ ∃ result, attempt.result = .ok result := by
  cases h with
  | unreplayable hcomposed' => cases hcomposed.symm.trans hcomposed'
  | refused hrefusal => exact Or.inl ⟨_, hrefusal, rfl⟩
  | counted haccepted => exact Or.inr ⟨haccepted, _, rfl⟩
  | replayed haccepted => exact Or.inr ⟨haccepted, _, rfl⟩

/-- A result has rows, or a number for a count. -/
lemma Ends.sequence_cases {attempt : Attempt ρ} (h : Ends s t plan attempt)
    (hcount : ∀ c, plan.request = .count c → t = .count) {result : RenderResult ρ}
    (hresult : attempt.result = .ok result) :
    result.terminal = t ∧ ((∃ flow, result.sequence = .rows flow) ∨
      t = .count ∧ ∃ n, result.sequence = .counted n) := by
  cases h with
  | unreplayable | refused => cases hresult
  | counted haccepted hrequest =>
    obtain rfl := Except.ok.inj hresult
    obtain ⟨c, hc⟩ := hrequest
    exact ⟨rfl, Or.inr ⟨hcount c hc, _, rfl⟩⟩
  | replayed haccepted =>
    obtain rfl := Except.ok.inj hresult
    exact ⟨rfl, Or.inl ⟨_, rfl⟩⟩

end Renderer

/-- A terminal operation evaluates to a value of its own shape. -/
lemma Terminal.read?_evaluate (E : Entity ρ) (t : Terminal ρ) (flow : Flow ρ) :
    ∃ a, t.read? (t.evaluate E flow) = some a := by
  cases t <;> exact ⟨_, rfl⟩

namespace Stream

lemma foldl_operation (s : Stream ρ) (ops : List (Operation ρ)) :
    ops.foldl operation s =
      { s with pipeline := { s.pipeline with operations := s.pipeline.operations ++ ops } } := by
  induction ops generalizing s with
  | nil => simp
  | cons op ops ih =>
    rw [List.foldl_cons, ih]
    simp [operation, Pipeline.append]

/-- The pipeline that a stream of these operations renders in the end. -/
def ended (E : Entity ρ) (ops : List (Operation ρ)) (t : Terminal ρ) : Pipeline ρ :=
  { Pipeline.ofOperations E ops with terminal? := some t }

/-- A stream has a fresh pipeline, so its terminal operation can be set. -/
lemma value_finish (r : Renderer ρ) (configuration : StreamConfiguration)
    (ops : List (Operation ρ)) (store : Store ρ) (t : Terminal ρ) :
    ((ops.foldl operation (r.streamWith configuration)).finish store t).value =
      (r.render store (ended r.entity ops t) configuration).result.bind fun result =>
        (result.execute r.entity).answer := by
  have hset : ((ops.foldl operation (r.streamWith configuration)).pipeline).setTerminal t =
      .ok (ended r.entity ops t) := by
    rw [foldl_operation]
    rfl
  have hsame : (ops.foldl operation (r.streamWith configuration)).renderer = r ∧
      (ops.foldl operation (r.streamWith configuration)).configuration = configuration := by
    rw [foldl_operation]
    exact ⟨rfl, rfl⟩
  rw [finish, hset]
  simp only [hsame]
  cases (r.render store (ended r.entity ops t) configuration).result <;> rfl

/-- The pipeline of a stream is rendered once, and its result is used once. -/
lemma answer_ne_illegalState (r : Renderer ρ) (configuration : StreamConfiguration)
    (ops : List (Operation ρ)) (store : Store ρ) (t : Terminal ρ) (cause : Misuse) :
    (ops.foldl operation (r.streamWith configuration)).answer store t ≠
      .error (.illegalState cause) := by
  have hbegin : (ended r.entity ops t).beginRender = .ok t := rfl
  obtain ⟨hresult, -⟩ := Renderer.render_of_beginRender hbegin r store configuration
  have hcount : ∀ c, (r.plan configuration t (ended r.entity ops t).operations).request = .count c →
      t = .count := fun c hc => (Renderer.plan_of_count hc).1
  generalize r.plan configuration t (ended r.entity ops t).operations = plan at hresult hcount
  rw [answer, value_finish, hresult]
  cases hattempt : (r.carryOut store t plan).result with
  | error e =>
    intro h
    obtain rfl : e = .illegalState cause := Except.error.inj h
    exact (Renderer.ends_carryOut r store t plan).ne_illegalState cause hattempt
  | ok result =>
    obtain ⟨hterminal, ⟨flow, hrows⟩ | ⟨rfl, n, hcounted⟩⟩ :=
      (Renderer.ends_carryOut r store t plan).sequence_cases hcount hattempt
    · obtain ⟨a, ha⟩ := t.read?_evaluate r.entity flow
      have hanswer : (result.execute r.entity).answer = .ok (t.evaluate r.entity flow) := by
        rw [RenderResult.execute, hrows, hterminal]
      simp only [Except.bind, hanswer, ha]
      intro h
      cases h
    · have hanswer : (result.execute r.entity).answer = .ok (.count n) := by
        rw [RenderResult.execute, hcounted, hterminal]
      simp only [Except.bind, hanswer, Terminal.read?, TerminalValue.asCount?]
      intro h
      cases h

end Stream

namespace Renderer

open Operation

variable {r : Renderer ρ} {t : Terminal ρ} {pipeline : Pipeline ρ}

/-- How a render ends that may begin. -/
lemma render_cases (s : Store ρ) (configuration : StreamConfiguration)
    (hr : r.registry = .standard r.entity)
    (hops : ∀ op ∈ unreplayable pipeline.operations, op.IsCustom)
    (hbegin : pipeline.beginRender = .ok t) :
    let plan := r.plan configuration t pipeline.operations
    let rendering := r.render s pipeline configuration
    (∃ op ∈ unreplayable pipeline.operations,
        rendering.result = .error (.unsupported (.noReplay op.display)) ∧
          r.CallsNoStore pipeline configuration) ∨
      unreplayable pipeline.operations = [] ∧
        ((∃ e, s.refusal? plan.request.criteria = some e ∧
            rendering.result = .error (.store e)) ∨
          s.refusal? plan.request.criteria = none ∧ ∃ result, rendering.result = .ok result) := by
  intro plan rendering
  have hsame : unreplayable plan.remaining = unreplayable pipeline.operations :=
    unreplayable_plan hr hops configuration t
  have hresult : rendering.result = (r.carryOut s t plan).result :=
    (render_of_beginRender hbegin r s configuration).1
  cases hcomposed : composed plan.remaining with
  | ok replay =>
    right
    refine ⟨hsame ▸ composed_eq_ok_iff.1 ⟨replay, hcomposed⟩, ?_⟩
    rw [hresult]
    exact (ends_carryOut r s t plan).result_cases hcomposed
  | error op =>
    left
    have hop : op ∈ unreplayable plan.remaining :=
      List.mem_of_mem_head? (composed_eq_error_iff.1 hcomposed)
    cases hrequest : plan.request with
    | count c =>
      rw [(plan_of_count hrequest).2] at hop
      cases hop
    | rows q =>
      have hattempt := carryOut_of_unreplayable (r := r) (t := t) hrequest hcomposed
      refine ⟨op, hsame ▸ hop, ?_, fun s s' => ?_⟩
      · rw [hresult, hattempt]
      · simp only [render, hbegin]
        rw [hattempt s, hattempt s']

/-- A render is refused if the pipeline may not be rendered, and then nothing happens. Otherwise it
is unsupported if some operation cannot be replayed, and then no store is called. Otherwise it fails
with the error of the store if the store rejects the request, and else it succeeds. A render that
begins and fails leaves the store as it was, and the pipeline with the optimized operations that
were not absorbed. The end of a stream is never refused. -/
theorem render_fails_iff (s : Store ρ) (configuration : StreamConfiguration)
    (hr : r.registry = .standard r.entity)
    (hops : ∀ op ∈ pipeline.operations, op.transform = none → op.IsCustom) :
    let rendering := r.render s pipeline configuration
    let lacking := ∃ op ∈ pipeline.operations, op.transform = none
    ((∃ cause, rendering.result = .error (.illegalState cause)) ↔ pipeline.Refuses) ∧
      (pipeline.Refuses → rendering.pipeline = pipeline ∧ rendering.store = s ∧
        rendering.journal = .empty) ∧
      (∀ t, pipeline.state = .ready → pipeline.terminal? = some t →
        let plan := r.plan configuration t pipeline.operations
        let optimized := optimize r.entity r.settings.optimizer (some t) pipeline.operations
        ((∃ cause, rendering.result = .error (.unsupported cause)) ↔ lacking) ∧
          (lacking → r.CallsNoStore pipeline configuration) ∧
          (¬lacking →
            (∀ e, rendering.result = .error (.store e) ↔ plan.request.RejectedBy s e) ∧
              ((∀ e, ¬plan.request.RejectedBy s e) →
                (∃ result, rendering.result = .ok result) ∧
                  rendering.pipeline.state = .rendered)) ∧
          ∀ e, rendering.result = .error e → rendering.store = s ∧
            rendering.pipeline.state = .failed ∧
            plan.outcome.Leaves r.entity optimized rendering.pipeline.operations) ∧
      ∀ (ops : List (Operation ρ)) (t : Terminal ρ) (cause : Misuse),
        (ops.foldl Stream.operation (r.streamWith configuration)).answer s t ≠
          .error (.illegalState cause) := by
  intro rendering lacking
  have hcustom : ∀ op ∈ unreplayable pipeline.operations, op.IsCustom := fun op hop =>
    hops op (mem_unreplayable.1 hop).1 (mem_unreplayable.1 hop).2
  have hlacking : ¬lacking ↔ unreplayable pipeline.operations = [] := by
    simp [lacking, List.eq_nil_iff_forall_not_mem]
  refine ⟨⟨?_, fun hrefuses => ?_⟩, fun hrefuses => ?_, fun t hready ht => ?_, fun ops t cause =>
    Stream.answer_ne_illegalState r configuration ops s t cause⟩
  · rintro ⟨cause, hresult⟩
    by_contra hbegins
    obtain ⟨t, hbegin⟩ := Pipeline.exists_beginRender hbegins
    obtain ⟨hattempt, -⟩ := render_of_beginRender hbegin r s configuration
    exact (ends_carryOut r s t _).ne_illegalState cause (hattempt.symm.trans hresult)
  · obtain ⟨cause, hrender⟩ := render_of_refuses hrefuses r s configuration
    exact ⟨cause, congrArg Rendering.result hrender⟩
  · obtain ⟨cause, hrender⟩ := render_of_refuses hrefuses r s configuration
    simp only [rendering, hrender]
    exact ⟨trivial, trivial, trivial⟩
  · intro plan optimized
    have hbegin : pipeline.beginRender = .ok t := Pipeline.beginRender_eq_ok.2 ⟨hready, ht⟩
    obtain ⟨hresult, hstore, hleft, hstate⟩ := render_of_beginRender hbegin r s configuration
    have hfails : ∀ e, rendering.result = .error e → rendering.store = s ∧
        rendering.pipeline.state = .failed ∧
        plan.outcome.Leaves r.entity optimized rendering.pipeline.operations := by
      intro e he
      change rendering.result = _ at hresult
      change rendering.pipeline.operations = _ at hleft
      rw [hresult] at he
      refine ⟨hstore.trans ((ends_carryOut r s t plan).store_eq he), ?_, ?_⟩
      · exact hstate.trans (by rw [he])
      · rw [hleft]
        exact leaves_plan hr configuration t pipeline.operations
    rcases render_cases s configuration hr hcustom hbegin with
      ⟨op, hop, hunsupported, hcalls⟩ | ⟨hnone, hanswer⟩
    · have hlacks : lacking := by
        by_contra hall
        rw [hlacking.1 hall] at hop
        cases hop
      exact ⟨iff_of_true ⟨_, hunsupported⟩ hlacks, fun _ => hcalls, fun hall => absurd hlacks hall,
        hfails⟩
    · have hall : ¬lacking := hlacking.2 hnone
      refine ⟨iff_of_false ?_ hall, fun hlacks => absurd hlacks hall, fun _ => ?_, hfails⟩
      · rintro ⟨cause, hunsupported⟩
        rcases hanswer with ⟨e, -, hstored⟩ | ⟨-, result, hok⟩
        · cases hstored.symm.trans hunsupported
        · cases hok.symm.trans hunsupported
      · simp only [Request.rejectedBy_iff]
        rcases hanswer with ⟨e, hrefusal, hstored⟩ | ⟨hrefusal, result, hok⟩
        · refine ⟨fun e' => ?_, fun haccepts => absurd hrefusal (haccepts e)⟩
          rw [show rendering.result = _ from hstored, hrefusal]
          simp
        · refine ⟨fun e => ?_, fun _ => ⟨⟨result, hok⟩, hstate.trans ?_⟩⟩
          · rw [show rendering.result = _ from hok, hrefusal]
            exact iff_of_false nofun nofun
          · rw [← hresult, show (r.render s pipeline configuration).result = _ from hok]

theorem render_fails_iff_records :
    let E := Entity.ofColumns "User" "id" ["id", "name"]
    let adult : Predicate Record := .column ⟨"id", .gte (.int 18)⟩
    let ops := [filter E adult, custom "pivot", sorted E, limit 3]
    let pipeline := { Pipeline.ofOperations E ops with terminal? := some .collect }
    let r := Renderer.new E
    let s := Store.new E [⟨[("id", .int 1)]⟩, ⟨[("id", .int 20)]⟩]
    let rendering := r.render s pipeline .standard
    r.registry = .standard r.entity ∧ (∀ op ∈ ops, op.transform = none → op.IsCustom) ∧
      (∃ cause, rendering.result = .error (.unsupported cause)) ∧
      r.CallsNoStore pipeline .standard ∧ rendering.pipeline.state = .failed := by
  intro E adult ops pipeline r s rendering
  have hr : r.registry = .standard r.entity := rfl
  have hops : ∀ op ∈ pipeline.operations, op.transform = none → op.IsCustom := by
    simp only [pipeline, Pipeline.ofOperations, ops, List.forall_mem_cons]
    exact ⟨nofun, fun _ => ⟨"pivot", rfl⟩, nofun, nofun, nofun⟩
  have hlacks : ∃ op ∈ ops, op.transform = none := ⟨custom "pivot", by simp [ops], rfl⟩
  obtain ⟨-, -, hbegins, -⟩ := render_fails_iff s .standard hr hops
  obtain ⟨hunsupported, hcalls, -, hfails⟩ := hbegins .collect rfl rfl
  obtain ⟨cause, hcause⟩ := hunsupported.2 hlacks
  exact ⟨hr, hops, ⟨cause, hcause⟩, hcalls hlacks, (hfails _ hcause).2.1⟩

end Renderer
end Pushdown
