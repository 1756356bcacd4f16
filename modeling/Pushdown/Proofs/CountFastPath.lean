import Pushdown.Proofs.Rendering

/-!
# The fast path of a count

A count of which nothing is left for replay may ask the store for the number alone. The number is
the one that the rows themselves would give, and the store refuses both for the same reasons, but
for one: a store that is asked for a number does not look at the columns to project.
-/

namespace Pushdown

open Operation

variable {ρ : Type}

namespace RenderError

/-- Are the errors of one kind, whatever their causes? -/
def sameKind : RenderError → RenderError → Bool
  | illegalState _, illegalState _ | unsupported _, unsupported _ | store _, store _ => true
  | _, _ => false

@[simp]
lemma sameKind_self (e : RenderError) : e.sameKind e = true := by
  cases e <;> rfl

end RenderError

/-- Two uses that both count as many rows, or both fail, with errors of one kind and one class. -/
inductive SameCount :
    Except RenderError (TerminalValue ρ) → Except RenderError (TerminalValue ρ) → Prop
  | counts (n : Nat) : SameCount (.ok (.count n)) (.ok (.count n))
  | fails {e e' : RenderError} (hkind : e.sameKind e' = true)
      (hclass : e.errorClass = e'.errorClass) : SameCount (.error e) (.error e')

namespace Criteria

/-- The columns that take the place of whole rows in the answer. -/
def projectedColumns (c : Criteria) : List String :=
  match c.selection with
  | .columns names => names
  | .root | .count => []

end Criteria

namespace Store

variable {s : Store ρ} {c : Criteria}

/-- The number of rows that criteria select, or the refusal of the store. -/
def counted (s : Store ρ) (c : Criteria) : Except RenderError (TerminalValue ρ) :=
  match s.refusal? c with
  | some e => .error (.store e)
  | none => .ok (.count (s.select c).length)

lemma referencedColumns_eq (c : Criteria) :
    referencedColumns c = c.projectedColumns ++ referencedColumns c.toCount := by
  unfold referencedColumns Criteria.projectedColumns
  rw [List.append_assoc]
  rfl

/-- Asked for a number, a store refuses the same criteria, but for an unknown column to project. -/
lemma refusal?_toCount_cases (s : Store ρ) (c : Criteria) :
    s.refusal? c.toCount = s.refusal? c ∨
      ∃ column ∈ c.projectedColumns, s.entity.hasColumn column = false ∧
        s.refusal? c = some (.unknownColumn s.entity.name column) ∧
        ∀ e, s.refusal? c.toCount = some e → e.errorClass = .unsupported := by
  unfold refusal?
  cases s.failure? with
  | some e => exact Or.inl rfl
  | none =>
    by_cases hroot : c.root = s.entity.name
    · have hroot' : c.toCount.root = s.entity.name := hroot
      simp only [hroot, hroot', ne_eq, not_true_eq_false, if_false]
      rw [referencedColumns_eq c, List.find?_append]
      cases hfind : c.projectedColumns.find? fun column => !s.entity.hasColumn column with
      | none => exact Or.inl rfl
      | some column =>
        have hunknown : s.entity.hasColumn column = false := by
          simpa using List.find?_some hfind
        refine Or.inr ⟨column, List.mem_of_find?_eq_some hfind, hunknown, rfl, fun e he => ?_⟩
        obtain ⟨column', -, rfl⟩ := Option.map_eq_some_iff.1 he
        rfl
    · have hroot' : c.toCount.root ≠ s.entity.name := hroot
      simp only [hroot, hroot', ne_eq, not_false_eq_true, if_true]
      exact Or.inl rfl

/-- Counting by number and counting the rows come to the same, but for an unknown column to
project. -/
lemma counted_toCount_cases (s : Store ρ) (c : Criteria) :
    s.counted c.toCount = s.counted c ∨
      ∃ column ∈ c.projectedColumns, s.entity.hasColumn column = false ∧
        s.counted c = .error (.store (.unknownColumn s.entity.name column)) ∧
        ∀ e, s.counted c.toCount = .error e →
          e.sameKind (.store (.unknownColumn s.entity.name column)) = true ∧
            e.errorClass = .unsupported := by
  unfold counted
  rw [length_select_toCount]
  rcases refusal?_toCount_cases s c with hsame | ⟨column, hcolumn, hunknown, hrefusal, hclass⟩
  · rw [hsame]
    exact Or.inl rfl
  · refine Or.inr ⟨column, hcolumn, hunknown, by rw [hrefusal], fun e he => ?_⟩
    cases hcount : s.refusal? c.toCount with
    | none =>
      rw [hcount] at he
      cases he
    | some e' =>
      rw [hcount] at he
      obtain rfl := Except.error.inj he
      exact ⟨rfl, hclass e' hcount⟩

/-- Without a projection there is nothing that only one of them looks at. -/
lemma counted_select_root (s : Store ρ) (c : Criteria) :
    s.counted (c.select .root) = s.counted c.toCount := by
  rcases counted_toCount_cases s (c.select .root) with hsame | ⟨column, hcolumn, -⟩
  · exact hsame.symm
  · cases hcolumn

lemma counted_cases (s : Store ρ) (c : Criteria) :
    (∃ n, s.counted c = .ok (.count n)) ∨ ∃ e, s.counted c = .error e := by
  unfold counted
  cases s.refusal? c with
  | none => exact Or.inl ⟨_, rfl⟩
  | some e => exact Or.inr ⟨_, rfl⟩

lemma sameCount_counted (s : Store ρ) (c : Criteria) : SameCount (s.counted c) (s.counted c) := by
  rcases s.counted_cases c with ⟨n, hn⟩ | ⟨e, he⟩
  · rw [hn]
    exact .counts n
  · rw [he]
    exact .fails e.sameKind_self rfl

end Store

namespace Renderer

def withCountFastPath (r : Renderer ρ) (b : Bool) : Renderer ρ :=
  { r with settings := { r.settings with countFastPath := b } }

/-- What comes of rendering a pipeline and using the result: the answer, or the error of either. -/
def outcome (r : Renderer ρ) (s : Store ρ) (pipeline : Pipeline ρ)
    (configuration : StreamConfiguration) : Except RenderError (TerminalValue ρ) :=
  (r.render s pipeline configuration).result.bind fun result => (result.execute s.entity).answer

/-- What comes of carrying out a plan and using the result. -/
def use (r : Renderer ρ) (s : Store ρ) (t : Terminal ρ) (plan : Plan ρ) :
    Except RenderError (TerminalValue ρ) :=
  (r.carryOut s t plan).result.bind fun result => (result.execute s.entity).answer

variable {r : Renderer ρ} {s : Store ρ} {configuration : StreamConfiguration} {t : Terminal ρ}
  {pipeline : Pipeline ρ} {ops : List (Operation ρ)} {plan : Plan ρ}

lemma outcome_eq : r.outcome s pipeline configuration =
    pipeline.beginRender.bind fun t =>
      r.use s t (r.plan configuration t pipeline.operations) := by
  unfold outcome render use
  cases pipeline.beginRender <;> rfl

lemma use_count {c : Criteria} (h : plan.request = .count c) :
    r.use s .count plan = s.counted c := by
  unfold use Store.counted
  rw [result_carryOut_count h]
  cases s.refusal? c <;> rfl

lemma use_rows {q : Query} (h : plan.request = .rows q) :
    r.use s t plan =
      match composed plan.remaining with
      | .error op => .error (.unsupported (.noReplay op.display))
      | .ok replay =>
        match s.refusal? q.criteria with
        | some e => .error (.store e)
        | none => .ok (t.evaluate s.entity (replay (.ofRows (s.answer q)))) := by
  unfold use
  rw [result_carryOut_rows h]
  cases composed plan.remaining with
  | error op => rfl
  | ok replay => cases s.refusal? q.criteria <;> rfl

/-- A count counts or fails, and which renderer carries out its plan makes no difference. -/
lemma sameCount_use (r r' : Renderer ρ) (s : Store ρ) (plan : Plan ρ) :
    SameCount (r.use s .count plan) (r'.use s .count plan) := by
  cases hrequest : plan.request with
  | count c =>
    rw [use_count hrequest, use_count hrequest]
    exact s.sameCount_counted c
  | rows q =>
    rw [use_rows hrequest, use_rows hrequest]
    split
    · exact .fails rfl rfl
    · split
      · exact .fails rfl rfl
      · exact .counts _

/-- What the criteria pass of a render for a count absorbs. -/
def absorption (r : Renderer ρ) (s : Store ρ) (configuration : StreamConfiguration)
    (ops : List (Operation ρ)) : Absorption ρ Criteria :=
  Registry.absorbCriteria s.entity (optimize s.entity r.settings.optimizer (some .count) ops)
    (configuration.criteria s.entity.name)

/-- The plan of a count, with the fast path or without. -/
lemma plan_withCountFastPath (hr : r.IsStandard s.entity) (b : Bool) :
    let optimized := optimize s.entity r.settings.optimizer (some .count) ops
    let a := r.absorption s configuration ops
    let first := (Registry.standard s.entity).mergeCriteria optimized
      (configuration.criteria s.entity.name)
    let second := (Registry.standard s.entity).mergeQuery a.left
      ((Query.ofCriteria a.target).extendHints configuration.hints)
    (r.withCountFastPath b).plan configuration .count ops =
      if a.left.isEmpty && b then ⟨optimized, a.left, .count a.target.toCount, first.outcome⟩
      else ⟨optimized, second.operations, .rows second.target,
        first.outcome.followedBy second.outcome⟩ := by
  have hr' : (r.withCountFastPath b).IsStandard s.entity :=
    ⟨hr.entity_eq, hr.factory_eq, hr.registry_eq⟩
  obtain ⟨hoperations, htarget, -⟩ := Registry.mergeCriteria_standard s.entity
    (optimize s.entity r.settings.optimizer (some .count) ops)
    (configuration.criteria s.entity.name)
  rw [plan_eq hr']
  simp only [withCountFastPath, hoperations, htarget]
  rfl

/-- The fast path makes a difference only where nothing is left for replay. -/
lemma plan_of_left_ne_nil (hr : r.IsStandard s.entity)
    (hleft : (r.absorption s configuration ops).left ≠ []) :
    (r.withCountFastPath true).plan configuration .count ops =
      (r.withCountFastPath false).plan configuration .count ops := by
  have hsome : (r.absorption s configuration ops).left.isEmpty = false := by
    simpa using hleft
  rw [plan_withCountFastPath hr, plan_withCountFastPath hr, hsome]
  rfl

/-- Where nothing is left for replay, the fast path counts by number, and the plain path counts the
rows. -/
lemma use_of_left_nil (hr : r.IsStandard s.entity)
    (hleft : (r.absorption s configuration ops).left = []) :
    let target := (r.absorption s configuration ops).target
    let fast := r.withCountFastPath true
    let plain := r.withCountFastPath false
    fast.use s .count (fast.plan configuration .count ops) = s.counted target.toCount ∧
      plain.use s .count (plain.plan configuration .count ops) = s.counted target := by
  intro target fast plain
  let q := (Query.ofCriteria target).extendHints configuration.hints
  obtain ⟨hoperations, htarget, -⟩ := Registry.mergeQuery_standard (E := s.entity) [] q
  constructor
  · rw [plan_withCountFastPath hr, hleft]
    exact use_count rfl
  · rw [plan_withCountFastPath hr, hleft]
    refine (use_rows rfl).trans ?_
    simp only [List.isEmpty_nil, Bool.and_false, Bool.false_eq_true, if_false]
    rw [hoperations, htarget]
    change (match s.refusal? target with
      | some e => .error (.store e)
      | none => .ok (.count (Flow.ofRows (s.select target)).rows.length)) = s.counted target
    rw [Flow.rows_ofRows]
    rfl

/-- The columns that the criteria of a configuration project are the ones that it asks for. -/
lemma mem_projectedColumns {column : String}
    (h : column ∈ (r.absorption s configuration ops).target.projectedColumns) :
    ∃ names, configuration.projection? = some names ∧ column ∈ names := by
  have hselection : (r.absorption s configuration ops).target.selection =
      (configuration.criteria s.entity.name).selection :=
    Registry.selection_absorbCriteria s.entity _ _
  unfold Criteria.projectedColumns at h
  rw [hselection, StreamConfiguration.criteria_eq] at h
  cases hnames : configuration.projection? with
  | none =>
    rw [hnames] at h
    cases h
  | some names =>
    rw [hnames] at h
    exact ⟨names, rfl, h⟩

/-- Without the projection the criteria pass does the same, and the plain path counts as many rows
as the fast path. -/
lemma use_without_projection (hr : r.IsStandard s.entity)
    (hleft : (r.absorption s configuration ops).left = []) :
    let plain := r.withCountFastPath false
    plain.use s .count (plain.plan { configuration with projection? := none } .count ops) =
      s.counted (r.absorption s configuration ops).target.toCount := by
  intro plain
  have hcriteria : StreamConfiguration.criteria { configuration with projection? := none }
      s.entity.name = (configuration.criteria s.entity.name).select .root := by
    rw [StreamConfiguration.criteria_eq, StreamConfiguration.criteria_eq]
    rfl
  have habsorption : r.absorption s { configuration with projection? := none } ops =
      { r.absorption s configuration ops with
        target := (r.absorption s configuration ops).target.select .root } := by
    unfold absorption
    rw [hcriteria]
    exact Registry.absorbCriteria_select s.entity _ _ .root
  have hleft' : (r.absorption s { configuration with projection? := none } ops).left = [] := by
    rw [habsorption]
    exact hleft
  rw [(use_of_left_nil hr hleft').2, habsorption]
  exact s.counted_select_root _

/-- With the fast path or without, a count comes out the same: both count as many rows, or both fail
with errors of one kind and class. The one exception is a projection of an unknown column where
nothing is left for replay: only the plain path looks at it, and fails; the fast path counts the
rows that the plain path would count without the projection. -/
theorem count_fast_path (hr : r.IsStandard s.entity) (ht : pipeline.terminal? = some .count) :
    let fast := r.withCountFastPath true
    let plain := r.withCountFastPath false
    SameCount (fast.outcome s pipeline configuration) (plain.outcome s pipeline configuration) ∨
      ∃ names column n, (r.absorption s configuration pipeline.operations).left = [] ∧
        configuration.projection? = some names ∧ column ∈ names ∧
        s.entity.hasColumn column = false ∧
        fast.outcome s pipeline configuration = .ok (.count n) ∧
        plain.outcome s pipeline configuration =
          .error (.store (.unknownColumn s.entity.name column)) ∧
        plain.outcome s pipeline { configuration with projection? := none } = .ok (.count n) := by
  intro fast plain
  simp only [outcome_eq]
  cases hbegin : pipeline.beginRender with
  | error e => exact Or.inl (.fails e.sameKind_self rfl)
  | ok t =>
    have hterminal := (Pipeline.beginRender_eq_ok.1 hbegin).2
    obtain rfl : t = .count := Option.some.inj (hterminal.symm.trans ht)
    simp only [Except.bind]
    by_cases hleft : (r.absorption s configuration pipeline.operations).left = []
    · obtain ⟨hfast, hplain⟩ := use_of_left_nil hr hleft
      simp only [fast, plain, hfast, hplain, use_without_projection hr hleft]
      generalize hc : (r.absorption s configuration pipeline.operations).target = c
      rcases s.counted_toCount_cases c with hsame | ⟨column, hcolumn, hunknown, herror, hkind⟩
      · left
        rw [hsame]
        exact s.sameCount_counted c
      · obtain ⟨names, hnames, hmem⟩ := mem_projectedColumns (hc ▸ hcolumn)
        rcases s.counted_cases c.toCount with ⟨n, hn⟩ | ⟨e, he⟩
        · right
          exact ⟨names, column, n, hleft, hnames, hmem, hunknown, hn, herror, hn⟩
        · left
          obtain ⟨hkind, hclass⟩ := hkind e he
          rw [he, herror]
          exact .fails hkind hclass
    · left
      rw [plan_of_left_ne_nil hr hleft]
      exact sameCount_use _ _ _ _

theorem count_fast_path_records :
    let E := Entity.ofColumns "User" "id" ["id", "name"]
    let row (n : Int64) (name : String) : Record := ⟨[("id", .int n), ("name", .text name)]⟩
    let s := Store.new E [row 3 "A", row 1 "B", row 2 "C", row 3 "A"]
    let r := Renderer.new s.entity
    let configuration := (StreamConfiguration.standard.joining "name").selecting ["id"]
    let ops := [filter E (.column ⟨"name", .ne (.text "C")⟩), distinct E, sorted E]
    let pipeline := { Pipeline.ofOperations E ops with terminal? := some .count }
    r.IsStandard s.entity ∧ pipeline.terminal? = some .count ∧
      SameCount ((r.withCountFastPath true).outcome s pipeline configuration)
        ((r.withCountFastPath false).outcome s pipeline configuration) := by
  intro E row s r configuration ops pipeline
  have hr : r.IsStandard s.entity := ⟨rfl, rfl, rfl⟩
  have ht : pipeline.terminal? = some .count := rfl
  refine ⟨hr, ht, (count_fast_path hr ht).resolve_right ?_⟩
  rintro ⟨names, column, n, -, hnames, hcolumn, hunknown, -⟩
  obtain rfl : ["id"] = names := Option.some.inj hnames
  obtain rfl : column = "id" := List.mem_singleton.1 hcolumn
  revert hunknown
  decide

/-- The plain path fails on a projection that the fast path does not look at. -/
theorem count_fast_path_unknown_projection :
    let E := Entity.ofColumns "User" "id" ["id", "name"]
    let s := Store.new E [⟨[("id", .int 1)]⟩, ⟨[("id", .int 2)]⟩]
    let r := Renderer.new E
    let configuration := StreamConfiguration.standard.selecting ["salary"]
    let pipeline := { Pipeline.new E with terminal? := some .count }
    ¬SameCount ((r.withCountFastPath true).outcome s pipeline configuration)
      ((r.withCountFastPath false).outcome s pipeline configuration) := by
  intro E s r configuration pipeline
  have hr : r.IsStandard s.entity := ⟨rfl, rfl, rfl⟩
  have hsquashed : squashToFixpoint E ([] : List (Operation Record)) = [] := by
    rw [squashToFixpoint]
    rfl
  have hoptimized : optimize s.entity r.settings.optimizer (some .count) [] = [] := hsquashed
  have habsorption : r.absorption s configuration [] =
      Registry.absorbCriteria E [] (configuration.criteria "User") := by
    unfold absorption
    rw [hoptimized]
    rfl
  have hleft : (r.absorption s configuration []).left = [] := by
    rw [habsorption]
    rfl
  obtain ⟨hfast, hplain⟩ := use_of_left_nil hr hleft
  rw [habsorption] at hfast hplain
  have hcounts : (r.withCountFastPath true).outcome s pipeline configuration = .ok (.count 2) :=
    outcome_eq.trans hfast
  have hfails : (r.withCountFastPath false).outcome s pipeline configuration =
      .error (.store (.unknownColumn "User" "salary")) := outcome_eq.trans hplain
  rw [hcounts, hfails]
  nofun

end Renderer
end Pushdown
