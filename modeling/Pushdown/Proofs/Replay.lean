import Pushdown.Number.Count
import Pushdown.Pipeline.Operation
import Pushdown.Proofs.Flows
import Pushdown.Proofs.Orders

/-!
# Replay

Operations can be carried out on flows, one inside the other as replay does it, or on lists of
rows, one after the other. Both are interpretations of operations. They agree on rows if no
operation lets visits decide which rows come out.
-/

namespace Pushdown

namespace Flow

variable {ρ : Type}

/-- Fewer than `2 ^ 64` rows come. If one more would be too many, nothing happens behind the last
of them: a limit of `2 ^ 64 - 1` rows stops there, and a flow without it goes on to its end. -/
def Bounded (flow : Flow ρ) : Prop :=
  flow.rows.length < UInt64.size ∧
    (flow.rows.length + 1 = UInt64.size → flow.take flow.rows.length = flow)

lemma Bounded.of_lt {flow : Flow ρ} (h : flow.rows.length + 1 < UInt64.size) : flow.Bounded := by
  refine ⟨by omega, fun heq => ?_⟩
  omega

lemma Bounded.filter {flow : Flow ρ} (h : flow.Bounded) (t : ρ → Bool) :
    (flow.filter t).Bounded := by
  have hle := List.length_filter_le t flow.rows
  have hlt := h.1
  rcases Nat.lt_or_eq_of_le hle with hfewer | hall
  · apply Bounded.of_lt
    rw [rows_filter]
    omega
  · have hsame : flow.filter t = flow := filter_eq_self (List.length_filter_eq_length_iff.1 hall)
    rwa [hsame]

lemma Bounded.take_one (flow : Flow ρ) : (flow.take 1).Bounded := by
  apply Bounded.of_lt
  have hle : (flow.rows.take 1).length ≤ 1 := List.length_take_le 1 flow.rows
  have hsize : 2 < UInt64.size := by decide
  rw [rows_take]
  omega

/-- Below `2 ^ 64` rows, a flow is bounded just if the largest limit leaves all of it. -/
lemma bounded_iff {flow : Flow ρ} (h : flow.rows.length < UInt64.size) :
    flow.Bounded ↔ flow.take Count.greatest.toNat = flow := by
  have hg : Count.greatest.toNat + 1 = UInt64.size := rfl
  rcases Nat.lt_or_eq_of_le (Nat.le_of_lt_succ (hg ▸ h)) with hlt | heq
  · have hless : flow.rows.length + 1 < UInt64.size := by omega
    exact iff_of_true (.of_lt hless) (take_eq_self hlt)
  · have hall : flow.rows.length + 1 = UInt64.size := by omega
    refine ⟨fun hbounded => ?_, fun htake => ⟨h, fun _ => ?_⟩⟩
    · rw [← heq]
      exact hbounded.2 hall
    · rw [heq]
      exact htake

lemma bounded_ofRows {rows : List ρ} (h : rows.length < UInt64.size) :
    (ofRows rows).Bounded := by
  refine ⟨by rwa [rows_ofRows], fun _ => ?_⟩
  rw [rows_ofRows, take_ofRows, List.take_length]

end Flow

namespace Operation

variable {ρ : Type}

/-- An operation that picks or arranges rows, as the constructor of its name makes it. -/
inductive Selects (E : Entity ρ) : Operation ρ → Prop
  | filter (p : Predicate ρ) : Selects E (filter E p)
  | distinct : Selects E (distinct E)
  | sorted : Selects E (sorted E)
  | sortedBy {c : Comparator ρ} (hc : c.IsOrder) : Selects E (sortedBy E c)
  | limit (n : UInt64) : Selects E (limit n)
  | skip (n : UInt64) : Selects E (skip n)

/-- An operation as one of the constructors makes it, with total preorders for its closures where it
sorts. -/
inductive Standard (E : Entity ρ) : Operation ρ → Prop
  | selects {op : Operation ρ} (h : op.Selects E) : Standard E op
  | map (f : Closure (ρ → ρ)) : Standard E (map f)
  | flatMap (f : Closure (ρ → List ρ)) : Standard E (flatMap f)
  | peek (o : Observer) : Standard E (peek o)
  | takeWhile (p : Predicate ρ) : Standard E (takeWhile E p)
  | dropWhile (p : Predicate ρ) : Standard E (dropWhile E p)

def IsCustom (op : Operation ρ) : Prop := ∃ name, op.kind = .custom name

/-- An operation as one of the constructors makes it, or a custom one. -/
def Regular (E : Entity ρ) (op : Operation ρ) : Prop := op.Standard E ∨ op.IsCustom

/-- What an operation of the kind is, for the kinds that are fused or pushed down. -/
def HasForm (E : Entity ρ) (op : Operation ρ) : Kind → Prop
  | .filter => ∃ p, op = filter E p
  | .distinct => op = distinct E
  | .sorted => op = sorted E ∨ ∃ c : Comparator ρ, c.IsOrder ∧ op = sortedBy E c
  | .limit => ∃ n, op = limit n
  | .skip => ∃ n, op = skip n
  | _ => True

lemma Regular.hasForm {E : Entity ρ} {op : Operation ρ} (h : op.Regular E) {kind : Kind}
    (hkind : op.kind = kind) : op.HasForm E kind := by
  subst hkind
  rcases h with h | ⟨name, hname⟩
  · cases h with
    | selects h =>
      cases h with
      | filter p => exact ⟨p, rfl⟩
      | distinct => rfl
      | sorted => exact Or.inl rfl
      | sortedBy hc => exact Or.inr ⟨_, hc, rfl⟩
      | limit n => exact ⟨n, rfl⟩
      | skip n => exact ⟨n, rfl⟩
    | _ => trivial
  · rw [hname]
    trivial

lemma Selects.regular {E : Entity ρ} {op : Operation ρ} (h : op.Selects E) : op.Regular E :=
  Or.inl (.selects h)

/-- Operations stay regular where each is one from before or picks or arranges rows. -/
lemma regular_of_mem {E : Entity ρ} {ops ops' : List (Operation ρ)}
    (hops : ∀ op ∈ ops, op.Regular E) (hmem : ∀ op ∈ ops', op ∈ ops ∨ op.Selects E) :
    ∀ op ∈ ops', op.Regular E := by
  intro op hop
  rcases hmem op hop with hop | hselects
  · exact hops op hop
  · exact hselects.regular

/-- A transform sees the rows that it pulls, and not who visits them on their way: the rows that come
out are determined by the rows that go in. -/
def RowWise (op : Operation ρ) : Prop :=
  ∀ t, op.transform = some t → ∀ flow, (t flow).rows = (t (.ofRows flow.rows)).rows

/-- No more rows come out than go in. -/
def Shrinks (op : Operation ρ) : Prop :=
  ∀ t, op.transform = some t → ∀ flow, (t flow).rows.length ≤ flow.rows.length

/-- The operation does not call `o`. -/
def Spares (o : Observer) (op : Operation ρ) : Prop :=
  ∀ t, op.transform = some t → ∀ flow : Flow ρ, (∀ v ∈ flow.visits, v.observer ≠ o) →
    ∀ v ∈ (t flow).visits, v.observer ≠ o

lemma Standard.rowWise {E : Entity ρ} {op : Operation ρ} (h : op.Standard E) : op.RowWise := by
  intro t ht flow
  cases h with
  | selects h =>
    cases h <;> cases ht <;> simp
  | _ => cases ht; simp

lemma Standard.transform_isSome {E : Entity ρ} {op : Operation ρ} (h : op.Standard E) :
    op.transform.isSome := by
  cases h with
  | selects h => cases h <;> rfl
  | _ => rfl

lemma rowWise_of_mem {E : Entity ρ} {ops ops' : List (Operation ρ)}
    (hops : ∀ op ∈ ops, op.RowWise) (hmem : ∀ op ∈ ops', op ∈ ops ∨ op.Selects E) :
    ∀ op ∈ ops', op.RowWise := by
  intro op hop
  rcases hmem op hop with hop | hselects
  · exact hops op hop
  · exact (Standard.selects hselects).rowWise

/-- Any function of finite lists of rows makes a row-wise transform. -/
lemma rowWise_withTransform_rearrange (op : Operation ρ) (f : List ρ → List ρ) :
    (op.withTransform (.rearrange f)).RowWise := by
  rintro _ ⟨⟩ flow
  rw [Flow.rows_rearrange, Flow.rows_rearrange, Flow.rows_ofRows]

lemma shrinks_withTransform_rearrange (op : Operation ρ) {f : List ρ → List ρ}
    (hf : ∀ rows, (f rows).length ≤ rows.length) : (op.withTransform (.rearrange f)).Shrinks := by
  rintro _ ⟨⟩ flow
  rw [Flow.rows_rearrange]
  exact hf flow.rows

/-- Only FLAT_MAP can make more rows. -/
lemma Standard.shrinks {E : Entity ρ} {op : Operation ρ} (h : op.Standard E)
    (hkind : op.kind ≠ .flatMap) : op.Shrinks := by
  intro t ht flow
  cases h with
  | selects h =>
    cases h with
    | filter p =>
      cases ht
      simpa using List.length_filter_le _ flow.rows
    | distinct =>
      cases ht
      simpa using (firsts_sublist E.rowKey flow.rows).length_le
    | limit n =>
      cases ht
      rw [Flow.rows_take]
      exact List.length_take_le' n.toNat flow.rows
    | _ =>
      cases ht
      simp
  | flatMap f => exact absurd rfl hkind
  | takeWhile p =>
    cases ht
    simpa using (List.takeWhile_sublist _).length_le
  | dropWhile p =>
    cases ht
    simpa using (List.dropWhile_sublist _).length_le
  | _ =>
    cases ht
    simp

lemma Selects.shrinks {E : Entity ρ} {op : Operation ρ} (h : op.Selects E) : op.Shrinks := by
  apply (Standard.selects h).shrinks
  cases h <;> nofun

/-- No operation but the PEEK itself calls its observer. -/
lemma Standard.spares {E : Entity ρ} {op : Operation ρ} (h : op.Standard E) {o : Observer}
    (hpeek : op ≠ Operation.peek o) : op.Spares o := by
  intro t ht flow hflow v hv
  cases h with
  | selects h =>
    cases h with
    | limit n =>
      cases ht
      exact hflow v ((Flow.visits_take_sublist _ flow).subset hv)
    | _ =>
      cases ht
      exact hflow v (by simpa using hv)
  | peek o' =>
    cases ht
    rcases Pulled.mem_visits_observe hv with hself | hv
    · have hne : o' ≠ o := by
        rintro rfl
        exact hpeek rfl
      rwa [hself]
    · exact hflow v hv
  | takeWhile p =>
    cases ht
    exact hflow v ((Flow.visits_takeWhile_sublist _ flow).subset hv)
  | _ =>
    cases ht
    exact hflow v (by simpa using hv)

lemma Selects.spares {E : Entity ρ} {op : Operation ρ} (h : op.Selects E) (o : Observer) :
    op.Spares o := by
  apply (Standard.selects h).spares
  intro hpeek
  have hkind := congrArg Operation.kind hpeek
  cases h <;> cases hkind

@[simp] lemma replay?_nil (flow : Flow ρ) : replay? [] flow = some flow := rfl

lemma replay?_cons (op : Operation ρ) (ops : List (Operation ρ)) (flow : Flow ρ) :
    replay? (op :: ops) flow = op.transform.bind fun t => replay? ops (t flow) := by
  cases ht : op.transform with
  | none => simp [replay?, composed, ht, Except.toOption]
  | some t =>
    simp only [replay?, composed, ht, Option.bind_some]
    cases composed ops <;> rfl

lemma replay?_append (ops ops' : List (Operation ρ)) (flow : Flow ρ) :
    replay? (ops ++ ops') flow = (replay? ops flow).bind (replay? ops') := by
  induction ops generalizing flow with
  | nil => rfl
  | cons op ops ih =>
    rw [List.cons_append, replay?_cons, replay?_cons, Option.bind_assoc]
    cases op.transform with
    | none => rfl
    | some t => exact ih (t flow)

lemma replay?_isSome {ops : List (Operation ρ)} (h : ∀ op ∈ ops, op.transform.isSome)
    (flow : Flow ρ) : ∃ flow', replay? ops flow = some flow' := by
  induction ops generalizing flow with
  | nil => exact ⟨flow, rfl⟩
  | cons op ops ih =>
    obtain ⟨hop, hops⟩ := List.forall_mem_cons.1 h
    obtain ⟨t, ht⟩ := Option.isSome_iff_exists.1 hop
    rw [replay?_cons, ht, Option.bind_some]
    exact ih hops (t flow)

lemma spares_replay? {o : Observer} {ops : List (Operation ρ)} (h : ∀ op ∈ ops, op.Spares o)
    {flow flow' : Flow ρ} (hflow : ∀ v ∈ flow.visits, v.observer ≠ o)
    (hrun : replay? ops flow = some flow') : ∀ v ∈ flow'.visits, v.observer ≠ o := by
  induction ops generalizing flow with
  | nil =>
    obtain rfl := Option.some.inj hrun
    exact hflow
  | cons op ops ih =>
    obtain ⟨hop, hops⟩ := List.forall_mem_cons.1 h
    rw [replay?_cons] at hrun
    obtain ⟨t, ht, hrun⟩ := Option.bind_eq_some_iff.1 hrun
    exact ih hops (hop t ht flow hflow) hrun

end Operation

/-- What operations do to a carrier `σ` of rows, and which of its elements have no more rows than
64-bit numbers can count. -/
structure Interpretation (ρ σ : Type) where
  perform? : Operation ρ → σ → Option σ
  Fits : σ → Prop

namespace Interpretation

variable {ρ σ : Type} (I : Interpretation ρ σ)

/-- The operations from left to right, unless one of them cannot be carried out. -/
def run? : List (Operation ρ) → σ → Option σ
  | [], x => some x
  | op :: ops, x => (I.perform? op x).bind (run? ops)

/-- What goes into the operations fits, and so does what comes out of each. -/
def FitsThroughout : List (Operation ρ) → σ → Prop
  | [], x => I.Fits x
  | op :: ops, x => I.Fits x ∧ ∀ y, I.perform? op x = some y → FitsThroughout ops y

lemma FitsThroughout.fits {I : Interpretation ρ σ} {ops : List (Operation ρ)} {x : σ}
    (h : I.FitsThroughout ops x) : I.Fits x := by
  cases ops with
  | nil => exact h
  | cons op ops => exact h.1

lemma run?_append (ops ops' : List (Operation ρ)) (x : σ) :
    I.run? (ops ++ ops') x = (I.run? ops x).bind (I.run? ops') := by
  induction ops generalizing x with
  | nil => rfl
  | cons op ops ih =>
    rw [List.cons_append, run?, run?, Option.bind_assoc]
    cases I.perform? op x with
    | none => rfl
    | some y => exact ih y

lemma FitsThroughout.append {I : Interpretation ρ σ} {ops ops' : List (Operation ρ)} {x : σ}
    (h : I.FitsThroughout (ops ++ ops') x) {y : σ} (hy : I.run? ops x = some y) :
    I.FitsThroughout ops' y := by
  induction ops generalizing x with
  | nil =>
    obtain rfl := Option.some.inj hy
    exact h
  | cons op ops ih =>
    obtain ⟨z, hz, hy⟩ := Option.bind_eq_some_iff.1 hy
    exact ih (h.2 z hz) hy

lemma FitsThroughout.fits_run {I : Interpretation ρ σ} {ops : List (Operation ρ)} {x y : σ}
    (h : I.FitsThroughout ops x) (hy : I.run? ops x = some y) : I.Fits y := by
  rw [← List.append_nil ops] at h
  exact h.append hy

lemma fitsThroughout_append {I : Interpretation ρ σ} {ops ops' : List (Operation ρ)} {x : σ}
    (h : I.FitsThroughout ops x) (h' : ∀ y, I.run? ops x = some y → I.FitsThroughout ops' y) :
    I.FitsThroughout (ops ++ ops') x := by
  induction ops generalizing x with
  | nil => exact h' x rfl
  | cons op ops ih =>
    refine ⟨h.1, fun y hy => ih (h.2 y hy) fun z hz => h' z ?_⟩
    rw [run?, hy]
    exact hz

/-- On lists of rows: each operation has its whole input at hand. -/
def lists : Interpretation ρ (List ρ) where
  perform? op rows := op.transform.map fun t => (t (.ofRows rows)).rows
  Fits rows := rows.length < UInt64.size

/-- On flows: nothing is pulled before a consumer pulls. -/
def flows : Interpretation ρ (Flow ρ) where
  perform? op flow := op.transform.map fun t => t flow
  Fits := Flow.Bounded

lemma run?_flows (ops : List (Operation ρ)) (flow : Flow ρ) :
    flows.run? ops flow = Operation.replay? ops flow := by
  induction ops generalizing flow with
  | nil => rfl
  | cons op ops ih =>
    rw [run?, Operation.replay?_cons]
    cases ht : op.transform with
    | none => simp [flows, ht]
    | some t => simpa [flows, ht] using ih (t flow)

lemma lists_fitsThroughout {ops : List (Operation ρ)} (hops : ∀ op ∈ ops, op.Shrinks)
    {rows : List ρ} (h : rows.length < UInt64.size) : lists.FitsThroughout ops rows := by
  induction ops generalizing rows with
  | nil => exact h
  | cons op ops ih =>
    obtain ⟨hop, hops⟩ := List.forall_mem_cons.1 hops
    refine ⟨h, fun rows' hrows' => ih hops ?_⟩
    obtain ⟨t, ht, rfl⟩ := Option.map_eq_some_iff.1 hrows'
    have hle := hop t ht (.ofRows rows)
    rw [Flow.rows_ofRows] at hle
    omega

lemma flows_fitsThroughout {ops : List (Operation ρ)} (hops : ∀ op ∈ ops, op.Shrinks)
    {flow : Flow ρ} (h : flow.rows.length + 1 < UInt64.size) : flows.FitsThroughout ops flow := by
  induction ops generalizing flow with
  | nil => exact .of_lt h
  | cons op ops ih =>
    obtain ⟨hop, hops⟩ := List.forall_mem_cons.1 hops
    refine ⟨.of_lt h, fun flow' hflow' => ih hops ?_⟩
    obtain ⟨t, ht, rfl⟩ := Option.map_eq_some_iff.1 hflow'
    have hle := hop t ht flow
    omega

/-- Replay hands out the rows that the operations make of lists. -/
theorem run?_lists {ops : List (Operation ρ)} (h : ∀ op ∈ ops, op.RowWise) (flow : Flow ρ) :
    lists.run? ops flow.rows = (Operation.replay? ops flow).map Flow.rows := by
  induction ops generalizing flow with
  | nil => rfl
  | cons op ops ih =>
    obtain ⟨hop, hops⟩ := List.forall_mem_cons.1 h
    rw [run?, Operation.replay?_cons]
    cases ht : op.transform with
    | none => simp [lists, ht]
    | some t =>
      have hstep : lists.perform? op flow.rows = some (t flow).rows := by
        simp only [lists, ht, Option.map_some]
        rw [hop t ht flow]
      rw [hstep, Option.bind_some, Option.bind_some, ih hops]

end Interpretation
end Pushdown
