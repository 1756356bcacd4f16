import Pushdown.Proofs.RenderFailures
import Pushdown.Render.Lifecycle

/-!
# Single use

A pipeline renders once and its result is used once, however edits, renders and uses are mixed.
Each of these is a latch: some call sets it, no call resets it, and as long as it is set the calls
in question are refused.
-/

namespace Pushdown

variable {ρ : Type}

namespace Renderer

variable {r : Renderer ρ} {pipeline : Pipeline ρ} {configuration : StreamConfiguration}

lemma callsNoStore_of_refuses (h : pipeline.Refuses) : r.CallsNoStore pipeline configuration := by
  intro s s'
  obtain ⟨cause, hbegin⟩ := Pipeline.beginRender_of_refuses h
  simp only [render, hbegin]

/-- A render that succeeds has called the store: with a store that rejects every request it would
have failed. -/
theorem not_callsNoStore_of_ok {s : Store ρ} {result : RenderResult ρ}
    (h : (r.render s pipeline configuration).result = .ok result) :
    ¬r.CallsNoStore pipeline configuration := by
  intro hcalls
  let rejecting := s.failing (.wrongRoot "" "")
  have hrejects (c : Criteria) : rejecting.refusal? c = some (.wrongRoot "" "") := rfl
  have hsame : (r.render rejecting pipeline configuration).result = .ok result :=
    (congrArg Rendering.result (hcalls s rejecting)).trans h
  by_cases hrefuses : pipeline.Refuses
  · obtain ⟨cause, hrender⟩ := render_of_refuses hrefuses r s configuration
    rw [hrender] at h
    cases h
  · obtain ⟨t, hbegin⟩ := Pipeline.exists_beginRender hrefuses
    obtain ⟨hresult, -⟩ := render_of_beginRender hbegin r rejecting configuration
    rw [hsame] at hresult
    have hends := ends_carryOut r rejecting t (r.plan configuration t pipeline.operations)
    generalize r.carryOut rejecting t _ = attempt at hresult hends
    cases hends with
    | unreplayable | refused => cases hresult
    | counted haccepted => cases (hrejects _).symm.trans haccepted
    | replayed haccepted => cases (hrejects _).symm.trans haccepted

end Renderer

namespace RenderResult

/-- To apply the terminal operation is to use the sequence up, whatever comes of it. -/
lemma result_execute (E : Entity ρ) (result : RenderResult ρ) :
    (result.execute E).result = { result with sequence := .consumed } := by
  obtain ⟨sequence, terminal, summary⟩ := result
  cases sequence with
  | rows flow => rfl
  | counted n => cases terminal <;> rfl
  | consumed => rfl

/-- To ask for rows leaves a number where it is. -/
lemma result_takeRows (result : RenderResult ρ) :
    result.takeRows.result = result ∨
      result.takeRows.result = { result with sequence := .consumed } ∧
        ∀ n, result.sequence ≠ .counted n := by
  obtain ⟨sequence, terminal, summary⟩ := result
  cases sequence with
  | rows flow => exact Or.inr ⟨rfl, nofun⟩
  | counted n => exact Or.inl rfl
  | consumed => exact Or.inl rfl

end RenderResult

namespace Lifecycle

def Call.isRender : Call ρ → Bool
  | render .. => true
  | _ => false

def Call.isUse : Call ρ → Bool
  | execute | takeRows => true
  | _ => false

/-- The result is a number that nobody has asked for yet. -/
def HasCounted (l : Lifecycle ρ) (n : Nat) : Prop :=
  ∃ result, l.result? = some result ∧ result.sequence = .counted n

/-- The result has been used. -/
def IsSpent (l : Lifecycle ρ) : Prop :=
  ∃ result, l.result? = some result ∧ result.sequence = .consumed

/-- There is a result only of a rendered pipeline, and only a count has a number for a result. -/
structure Sound (l : Lifecycle ρ) : Prop where
  rendered : ∀ result, l.result? = some result → l.pipeline.state = .rendered
  counts : ∀ result n, l.result? = some result → result.sequence = .counted n →
    result.terminal = .count

lemma Sound.of_none {l : Lifecycle ρ} (h : l.result? = none) : l.Sound where
  rendered result hr := by
    rw [h] at hr
    cases hr
  counts result n hr := by
    rw [h] at hr
    cases hr

namespace Event

/-- A render that the pipeline does not refuse. -/
def Begins (e : Event ρ) : Prop := e.call.isRender = true ∧ ¬e.before.pipeline.Refuses

/-- A render whose outcome depends on the store, or that leaves its trace there. -/
def ReachesStore (e : Event ρ) : Prop :=
  ∃ r store configuration, e.call = .render r store configuration ∧
    ¬r.CallsNoStore e.before.pipeline configuration

/-- The call is a misuse and changes nothing. -/
def IsRefused (e : Event ρ) : Prop :=
  (∃ cause, e.reply = .failed (.illegalState cause)) ∧ e.after = e.before

def SetsTerminal (e : Event ρ) : Prop := ∃ t, e.call = .setTerminal t ∧ e.reply = .done

/-- A use of the result that gives a value or rows. -/
def Consumes (e : Event ρ) : Prop :=
  e.call.isUse = true ∧ ((∃ v, e.reply = .value v) ∨ ∃ flow, e.reply = .rows flow)

end Event

variable {E : Entity ρ} {l : Lifecycle ρ}

/-- What a call can make of a pipeline and its result: it edits the pipeline or does nothing, it
renders the pipeline in vain or for a result, or it uses the result up. -/
inductive Becomes (l : Lifecycle ρ) (c : Call ρ) : Lifecycle ρ → Prop
  | edits {p : Pipeline ρ} (hstate : p.state = l.pipeline.state)
      (hterminal : l.pipeline.terminal? ≠ none → p.terminal? ≠ none)
      (hrefuses : c.isRender = true → l.pipeline.Refuses) :
      Becomes l c ⟨p, l.result?⟩
  | fails {p : Pipeline ρ} (hbegins : ¬l.pipeline.Refuses) (hstate : p.state = .failed)
      (hterminal : p.terminal? = l.pipeline.terminal?) : Becomes l c ⟨p, l.result?⟩
  | yields {p : Pipeline ρ} {result : RenderResult ρ} (hbegins : ¬l.pipeline.Refuses)
      (hstate : p.state = .rendered) (hterminal : p.terminal? = l.pipeline.terminal?)
      (hresult : (∃ flow, result.sequence = .rows flow) ∨ result.terminal = .count) :
      Becomes l c ⟨p, some result⟩
  | consumes {result : RenderResult ρ} (hresult : l.result? = some result)
      (hcall : c = .execute ∨ c = .takeRows ∧ ∀ n, result.sequence ≠ .counted n) :
      Becomes l c ⟨l.pipeline, some { result with sequence := .consumed }⟩

variable {E : Entity ρ} {l : Lifecycle ρ} {c : Call ρ}

lemma Becomes.unchanged (hrefuses : c.isRender = true → l.pipeline.Refuses) : l.Becomes c l :=
  .edits rfl id hrefuses

/-- A render of a pipeline that refuses it changes nothing. -/
lemma step_render_of_refuses (h : l.pipeline.Refuses) (r : Renderer ρ) (store : Store ρ)
    (configuration : StreamConfiguration) :
    ∃ cause, l.step E (.render r store configuration) = (l, .failed (.illegalState cause)) := by
  obtain ⟨cause, hrender⟩ := Renderer.render_of_refuses h r store configuration
  exact ⟨cause, by simp only [step, hrender]⟩

lemma becomes_render (E : Entity ρ) (l : Lifecycle ρ) (r : Renderer ρ) (store : Store ρ)
    (configuration : StreamConfiguration) :
    l.Becomes (.render r store configuration) (l.step E (.render r store configuration)).1 := by
  by_cases hrefuses : l.pipeline.Refuses
  · obtain ⟨cause, hstep⟩ := step_render_of_refuses (E := E) hrefuses r store configuration
    rw [hstep]
    exact .unchanged fun _ => hrefuses
  · obtain ⟨t, hbegin⟩ := Pipeline.exists_beginRender hrefuses
    have hcount : ∀ c, (r.plan configuration t l.pipeline.operations).request = .count c →
        t = .count := fun c hc => (Renderer.plan_of_count hc).1
    simp only [step, Renderer.render, hbegin]
    generalize r.plan configuration t l.pipeline.operations = plan at hcount
    cases hattempt : (r.carryOut store t plan).result with
    | error e => exact .fails hrefuses rfl rfl
    | ok result =>
      refine .yields hrefuses rfl rfl ?_
      have hends := Renderer.ends_carryOut r store t plan
      obtain ⟨hterminal, hrows | ⟨rfl, -⟩⟩ := hends.sequence_cases hcount hattempt
      · exact Or.inl hrows
      · exact Or.inr hterminal

lemma use_of_result {α : Type} (consume : RenderResult ρ → Consumption ρ α) (reply : α → Reply ρ)
    {result : RenderResult ρ} (h : l.result? = some result) :
    l.use consume reply =
      (⟨l.pipeline, some (consume result).result⟩,
        match (consume result).answer with
        | .ok a => reply a
        | .error e => .failed e) := by
  simp only [use, h]
  cases (consume result).answer <;> rfl

lemma becomes_execute (E : Entity ρ) (l : Lifecycle ρ) :
    l.Becomes .execute (l.step E .execute).1 := by
  rw [step]
  cases hresult : l.result? with
  | none =>
    rw [use, hresult]
    exact .unchanged nofun
  | some result =>
    rw [use_of_result _ _ hresult, RenderResult.result_execute]
    exact .consumes hresult (Or.inl rfl)

lemma becomes_takeRows (E : Entity ρ) (l : Lifecycle ρ) :
    l.Becomes .takeRows (l.step E .takeRows).1 := by
  rw [step]
  cases hresult : l.result? with
  | none =>
    rw [use, hresult]
    exact .unchanged nofun
  | some result =>
    rw [use_of_result _ _ hresult]
    rcases result.result_takeRows with hsame | ⟨hused, hrows⟩
    · rw [hsame, ← hresult]
      exact .unchanged nofun
    · rw [hused]
      exact .consumes hresult (Or.inr ⟨rfl, hrows⟩)

/-- What a step does. -/
theorem becomes_step (E : Entity ρ) (l : Lifecycle ρ) (c : Call ρ) :
    l.Becomes c (l.step E c).1 := by
  cases c with
  | append op | prepend op => exact .edits rfl id nofun
  | insert i op =>
    simp only [step, Pipeline.insert?]
    split
    · rename_i p hp
      split at hp
      · obtain rfl := Option.some.inj hp
        exact .edits rfl id nofun
      · cases hp
    · exact .unchanged nofun
  | remove i =>
    simp only [step, Pipeline.remove?]
    cases l.pipeline.operations[i]? with
    | none => exact .unchanged nofun
    | some op => exact .edits rfl id nofun
  | replace i op =>
    simp only [step, Pipeline.replace?]
    cases l.pipeline.operations[i]? with
    | none => exact .unchanged nofun
    | some old => exact .edits rfl id nofun
  | setTerminal t =>
    simp only [step, Pipeline.setTerminal]
    cases l.pipeline.terminal? with
    | none => exact .edits rfl (fun _ => Option.some_ne_none t) nofun
    | some existing => exact .unchanged nofun
  | replaceTerminal t => exact .edits rfl (fun _ => Option.some_ne_none t) nofun
  | render r store configuration => exact becomes_render E l r store configuration
  | execute => exact becomes_execute E l
  | takeRows => exact becomes_takeRows E l

namespace Becomes

variable {next : Lifecycle ρ}

lemma sound (h : l.Becomes c next) (hl : l.Sound) : next.Sound := by
  cases h with
  | edits hstate => exact ⟨fun result hr => hstate.trans (hl.rendered result hr), hl.counts⟩
  | fails hbegins =>
    refine ⟨fun result hr => absurd (Or.inl ?_) hbegins, hl.counts⟩
    rw [hl.rendered result hr]
    nofun
  | yields hbegins hstate hterminal hresult =>
    refine ⟨fun _ _ => hstate, fun result n hr hn => ?_⟩
    obtain rfl := Option.some.inj hr
    rcases hresult with ⟨flow, hflow⟩ | hcount
    · cases hflow.symm.trans hn
    · exact hcount
  | consumes hresult =>
    refine ⟨fun _ _ => hl.rendered _ hresult, fun result n hr hn => ?_⟩
    obtain rfl := Option.some.inj hr
    cases hn

/-- A pipeline that has been rendered keeps its state. -/
lemma state_eq (h : l.Becomes c next) (hl : l.pipeline.state ≠ .ready) :
    next.pipeline.state = l.pipeline.state := by
  cases h with
  | edits hstate => exact hstate
  | fails hbegins => exact absurd (Or.inl hl) hbegins
  | yields hbegins => exact absurd (Or.inl hl) hbegins
  | consumes => rfl

/-- A render that begins closes the pipeline, whether it succeeds or not. -/
lemma state_ne_ready (h : l.Becomes c next) (hc : c.isRender = true) (hl : ¬l.pipeline.Refuses) :
    next.pipeline.state ≠ .ready := by
  cases h with
  | edits hstate hterminal hrefuses => exact absurd (hrefuses hc) hl
  | fails hbegins hstate =>
    rw [hstate]
    nofun
  | yields hbegins hstate =>
    rw [hstate]
    nofun
  | consumes hresult hcall => rcases hcall with rfl | ⟨rfl, -⟩ <;> cases hc

lemma terminal?_ne_none (h : l.Becomes c next) (hl : l.pipeline.terminal? ≠ none) :
    next.pipeline.terminal? ≠ none := by
  cases h with
  | edits hstate hterminal => exact hterminal hl
  | fails hbegins hstate hterminal => rwa [hterminal]
  | yields hbegins hstate hterminal => rwa [hterminal]
  | consumes => exact hl

/-- A result is there for good, and only a use changes it. -/
lemma result?_cases (h : l.Becomes c next) (hl : l.Sound) {result : RenderResult ρ}
    (hresult : l.result? = some result) :
    next.result? = some result ∨ next.result? = some { result with sequence := .consumed } ∧
      (c = .execute ∨ ∀ n, result.sequence ≠ .counted n) := by
  have hrefuses : l.pipeline.Refuses := Or.inl (by rw [hl.rendered result hresult]; nofun)
  cases h with
  | edits => exact Or.inl hresult
  | fails hbegins => exact absurd hrefuses hbegins
  | yields hbegins => exact absurd hrefuses hbegins
  | consumes hused hcall =>
    obtain rfl := Option.some.inj (hresult.symm.trans hused)
    exact Or.inr ⟨rfl, hcall.imp_right And.right⟩

lemma isSpent (h : l.Becomes c next) (hl : l.Sound) (hspent : l.IsSpent) : next.IsSpent := by
  obtain ⟨result, hresult, hsequence⟩ := hspent
  rcases h.result?_cases hl hresult with hsame | ⟨hused, -⟩
  · exact ⟨result, hsame, hsequence⟩
  · exact ⟨_, hused, rfl⟩

lemma hasCounted (h : l.Becomes c next) (hl : l.Sound) {n : Nat} (hcounted : l.HasCounted n)
    (hc : c ≠ .execute) : next.HasCounted n := by
  obtain ⟨result, hresult, hsequence⟩ := hcounted
  rcases h.result?_cases hl hresult with hsame | ⟨-, hexecute | hrows⟩
  · exact ⟨result, hsame, hsequence⟩
  · exact absurd hexecute hc
  · exact absurd hsequence (hrows n)

end Becomes

variable (E)

/-- If an event of the kind `P` sets a latch that no call resets, and under the latch all events are
of the kind `Q`, then all events behind one of the kind `P` are. -/
lemma pairwise_history {latch : Lifecycle ρ → Prop} {P Q : Event ρ → Prop}
    (hstays : ∀ (l : Lifecycle ρ) c, l.Sound → latch l → latch (l.step E c).1)
    (hsets : ∀ (l : Lifecycle ρ) c, l.Sound → P (l.event E c) → latch (l.step E c).1)
    (hforces : ∀ (l : Lifecycle ρ) c, l.Sound → latch l → Q (l.event E c)) (hl : l.Sound)
    (calls : List (Call ρ)) :
    (l.history E calls).Pairwise fun e f => P e → Q f := by
  have hlater (l : Lifecycle ρ) (hl : l.Sound) (hlatch : latch l) (calls : List (Call ρ)) :
      ∀ e ∈ l.history E calls, Q e := by
    induction calls generalizing l with
    | nil => exact List.forall_mem_nil Q
    | cons c calls ih =>
      exact List.forall_mem_cons.2 ⟨hforces l c hl hlatch,
        ih _ ((becomes_step E l c).sound hl) (hstays l c hl hlatch)⟩
  induction calls generalizing l with
  | nil => exact .nil
  | cons c calls ih =>
    have hnext := (becomes_step E l c).sound hl
    exact .cons (fun f hf hP => hlater _ hnext (hsets l c hl hP) calls f hf) (ih hnext)

/-- What holds of a sound lifecycle, and still holds after each of the calls, holds in the end. -/
lemma run_induction {Q : Lifecycle ρ → Prop} {calls : List (Call ρ)}
    (hstep : ∀ (l : Lifecycle ρ), ∀ c ∈ calls, l.Sound → Q l → Q (l.step E c).1) (hl : l.Sound)
    (hQ : Q l) : (l.run E calls).Sound ∧ Q (l.run E calls) := by
  induction calls generalizing l with
  | nil => exact ⟨hl, hQ⟩
  | cons c calls ih =>
    exact ih (fun l c' hc' => hstep l c' (List.mem_cons_of_mem c hc'))
      ((becomes_step E l c).sound hl) (hstep l c List.mem_cons_self hl hQ)

lemma sound_run (hl : l.Sound) (calls : List (Call ρ)) : (l.run E calls).Sound :=
  (run_induction E (Q := fun _ => True) (fun _ _ _ _ _ => trivial) hl trivial).1

/-- A render of a pipeline that is no longer ready is refused. -/
lemma isRefused_of_state_ne (c : Call ρ) (h : l.pipeline.state ≠ .ready) (hc : c.isRender = true) :
    (l.event E c).IsRefused := by
  cases c with
  | render r store configuration =>
    obtain ⟨cause, hstep⟩ := step_render_of_refuses (E := E) (Or.inl h) r store configuration
    rw [event, hstep]
    exact ⟨⟨cause, rfl⟩, rfl⟩
  | _ => cases hc

/-- Once set, a terminal operation cannot be set again. -/
lemma not_setsTerminal (c : Call ρ) (h : l.pipeline.terminal? ≠ none) :
    ¬(l.event E c).SetsTerminal := by
  rintro ⟨t, hcall, hreply⟩
  obtain rfl : c = .setTerminal t := hcall
  obtain ⟨existing, hexisting⟩ := Option.ne_none_iff_exists'.1 h
  rw [event, step, Pipeline.setTerminal, hexisting] at hreply
  cases hreply

lemma terminal?_of_setsTerminal {c : Call ρ} (h : (l.event E c).SetsTerminal) :
    (l.step E c).1.pipeline.terminal? ≠ none := by
  obtain ⟨t, hcall, hreply⟩ := h
  obtain rfl : c = .setTerminal t := hcall
  rw [event, step, Pipeline.setTerminal] at hreply
  rw [step, Pipeline.setTerminal]
  cases hterminal : l.pipeline.terminal? with
  | none => exact Option.some_ne_none t
  | some existing =>
    rw [hterminal] at hreply
    cases hreply

lemma begins_of_reachesStore {e : Event ρ} (h : e.ReachesStore) : e.Begins := by
  obtain ⟨r, store, configuration, hcall, hreaches⟩ := h
  refine ⟨by rw [hcall]; rfl, fun hrefuses => hreaches ?_⟩
  exact Renderer.callsNoStore_of_refuses hrefuses

/-- A used result is refused. -/
lemma reply_of_isSpent (c : Call ρ) (h : l.IsSpent) (hc : c.isUse = true) :
    (l.event E c).reply = .failed (.illegalState .alreadyConsumed) := by
  obtain ⟨result, hresult, hsequence⟩ := h
  cases c with
  | execute =>
    rw [event, step, use_of_result _ _ hresult, RenderResult.execute, hsequence]
  | takeRows =>
    rw [event, step, use_of_result _ _ hresult, RenderResult.takeRows, hsequence]
  | _ => cases hc

/-- A use that gives something uses the result up. -/
lemma isSpent_of_consumes {c : Call ρ} (h : (l.event E c).Consumes) : (l.step E c).1.IsSpent := by
  obtain ⟨hc, hreply⟩ := h
  cases c with
  | execute =>
    rw [event, step] at hreply
    cases hresult : l.result? with
    | none => simp [use, hresult] at hreply
    | some result =>
      rw [step, use_of_result _ _ hresult, RenderResult.result_execute]
      exact ⟨_, rfl, rfl⟩
  | takeRows =>
    rw [event, step] at hreply
    cases hresult : l.result? with
    | none => simp [use, hresult] at hreply
    | some result =>
      rw [use_of_result _ _ hresult] at hreply
      rw [step, use_of_result _ _ hresult]
      unfold RenderResult.takeRows at hreply ⊢
      cases hsequence : result.sequence with
      | rows flow => exact ⟨_, rfl, rfl⟩
      | counted n => simp [hsequence] at hreply
      | consumed => simp [hsequence] at hreply
  | _ => cases hc

/-- A number is no rows, and stays for a count to come. -/
lemma step_of_hasCounted (hl : l.Sound) {n : Nat} (h : l.HasCounted n) :
    l.step E .takeRows = (l, .failed (.unsupported .countHasNoRows)) ∧
      (l.step E .execute).2 = .value (.count n) := by
  obtain ⟨result, hresult, hsequence⟩ := h
  have hterminal := hl.counts result n hresult hsequence
  constructor
  · rw [step, use_of_result _ _ hresult, RenderResult.takeRows, hsequence, ← hresult]
  · rw [step, use_of_result _ _ hresult, RenderResult.execute, hsequence, hterminal]

/-- A pipeline leaves its first state once at most, and for good. At most one render reaches a
store, and all renders behind the first that begins are refused. At most one call sets the terminal
operation, and at most one use of the result succeeds; all uses behind it are refused. Rows are not
to be had of a number, which stays where it is until it is asked for. -/
theorem single_use (pipeline : Pipeline ρ) (calls : List (Call ρ)) :
    let l : Lifecycle ρ := ⟨pipeline, none⟩
    let now := l.run E calls
    let history := l.history E calls
    (now.pipeline.state ≠ .ready →
        ∀ more, (now.run E more).pipeline.state = now.pipeline.state) ∧
      history.Pairwise (fun e f => e.ReachesStore → ¬f.ReachesStore) ∧
      history.Pairwise (fun e f => e.Begins → f.call.isRender = true → f.IsRefused) ∧
      history.Pairwise (fun e f => e.SetsTerminal → ¬f.SetsTerminal) ∧
      history.Pairwise (fun e f => e.Consumes → f.call.isUse = true →
        f.reply = .failed (.illegalState .alreadyConsumed)) ∧
      ∀ n, now.HasCounted n →
        now.step E .takeRows = (now, .failed (.unsupported .countHasNoRows)) ∧
          ∀ more, (∀ c ∈ more, c ≠ .execute) →
            ((now.run E more).step E .execute).2 = .value (.count n) := by
  intro l now history
  have hl : l.Sound := .of_none rfl
  have hnow : now.Sound := sound_run E hl calls
  -- the latch of renders
  have hcloses : ∀ (l : Lifecycle ρ) c, l.Sound → (l.event E c).Begins →
      (l.step E c).1.pipeline.state ≠ .ready :=
    fun l c _ hbegins => (becomes_step E l c).state_ne_ready hbegins.1 hbegins.2
  have hclosed : ∀ (l : Lifecycle ρ) c, l.Sound → l.pipeline.state ≠ .ready →
      (l.step E c).1.pipeline.state ≠ .ready := fun l c _ h => by
    rwa [(becomes_step E l c).state_eq h]
  refine ⟨fun hstate more => ?_, ?_, ?_, ?_, ?_, fun n hcounted => ?_⟩
  · refine (run_induction E (Q := fun m => m.pipeline.state = now.pipeline.state)
      (fun m c _ _ hm => ?_) hnow rfl).2
    exact ((becomes_step E m c).state_eq (hm ▸ hstate)).trans hm
  · refine pairwise_history E hclosed
      (fun l c hl h => hcloses l c hl (begins_of_reachesStore h)) (fun l c _ h hreaches => ?_) hl
      calls
    exact (begins_of_reachesStore hreaches).2 (Or.inl h)
  · exact pairwise_history E hclosed hcloses (fun l c _ h => isRefused_of_state_ne E c h) hl calls
  · exact pairwise_history E (fun l c _ h => (becomes_step E l c).terminal?_ne_none h)
      (fun l c _ h => terminal?_of_setsTerminal E h) (fun l c _ h => not_setsTerminal E c h) hl
      calls
  · exact pairwise_history E (fun l c hl h => (becomes_step E l c).isSpent hl h)
      (fun l c _ h => isSpent_of_consumes E h) (fun l c _ h => reply_of_isSpent E c h) hl calls
  · refine ⟨(step_of_hasCounted E hnow hcounted).1, fun more hmore => ?_⟩
    obtain ⟨hlater, hcounted⟩ := run_induction E
      (fun m c hc hm h => (becomes_step E m c).hasCounted hm h (hmore c hc)) hnow hcounted
    exact (step_of_hasCounted E hlater hcounted).2

end Lifecycle
end Pushdown
