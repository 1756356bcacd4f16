import Pushdown.Proofs.Squashing

/-!
# Terminal operations

A terminal operation answers by the rows alone. The operations that optimization adds for one that
stops early bring the flow down to the row that it looks for, and pull no further than the terminal
operation does by itself.
-/

namespace Pushdown

variable {ρ : Type} {E : Entity ρ}

lemma any_take_one_filter {α : Type} (p : α → Bool) (l : List α) :
    ((l.filter p).take 1).any p = l.any p := by
  induction l with
  | nil => rfl
  | cons a l ih =>
    rw [List.filter_cons, List.any_cons]
    cases h : p a with
    | true => simp [h]
    | false => simpa using ih

lemma all_take_one_filter_not {α : Type} (p : α → Bool) (l : List α) :
    ((l.filter fun a => !p a).take 1).all p = l.all p := by
  induction l with
  | nil => rfl
  | cons a l ih =>
    rw [List.filter_cons, List.all_cons]
    cases h : p a with
    | true => simpa using ih
    | false => simp [h]

namespace TerminalValue

/-- The answer, with an iterator pulled to its end and only its rows kept. -/
def drained : TerminalValue ρ → TerminalValue ρ
  | iterator flow => iterator (.ofRows flow.rows)
  | v => v

end TerminalValue

namespace Terminal

variable (t : Terminal ρ)

lemma drained_evaluate_congr {flow flow' : Flow ρ} (h : flow.rows = flow'.rows) :
    (t.evaluate E flow).drained = (t.evaluate E flow').drained := by
  cases t with
  | anyMatch p => simp [evaluate, pulled, TerminalValue.drained, Flow.any_rows_upTo, h]
  | allMatch p => simp [evaluate, pulled, TerminalValue.drained, Flow.all_rows_upTo, h]
  | noneMatch p => simp [evaluate, pulled, TerminalValue.drained, Flow.any_rows_upTo, h]
  | forEach o => rfl
  | _ => simp [evaluate, pulled, TerminalValue.drained, h]

lemma drained_evaluate (flow : Flow ρ) :
    (t.evaluate E flow).drained = t.evaluate E (.ofRows flow.rows) := by
  -- over a list of rows there is nothing left to drain
  have hlist : (t.evaluate E (.ofRows flow.rows)).drained = t.evaluate E (.ofRows flow.rows) := by
    cases t with
    | iterator => simp [evaluate, TerminalValue.drained]
    | _ => rfl
  rw [← hlist]
  exact t.drained_evaluate_congr (Flow.rows_ofRows flow.rows).symm

end Terminal

namespace Operation

open Interpretation

lemma selects_shortCircuit (E : Entity ρ) (t : Terminal ρ) :
    ∀ op ∈ shortCircuit E t, op.Selects E := by
  have hsearch (p : Predicate ρ) : ∀ op ∈ [filter E p, limit 1], op.Selects E :=
    List.forall_mem_cons.2 ⟨.filter p, List.forall_mem_singleton.2 (.limit 1)⟩
  cases t with
  | findFirst => exact List.forall_mem_singleton.2 (.limit 1)
  | findAny => exact List.forall_mem_singleton.2 (.limit 1)
  | anyMatch p => exact hsearch p
  | noneMatch p => exact hsearch p
  | allMatch p => exact hsearch (.not p)
  | _ => exact nofun

/-- A terminal operation answers the same over the flow that short-circuiting operations leave, and
it visits the same on its way. -/
theorem shortCircuit_replays (E : Entity ρ) (t : Terminal ρ) (flow : Flow ρ) :
    ∃ flow', replay? (shortCircuit E t) flow = some flow' ∧
      t.evaluate E flow' = t.evaluate E flow ∧
      (t.pulled E flow').visits = (t.pulled E flow).visits := by
  have hfirst : replay? [limit 1] flow = some (flow.take 1) := rfl
  have htwice : (flow.take 1).take 1 = flow.take 1 := Flow.take_take 1 1 flow
  have hsearch (p : Predicate ρ) : replay? [filter E p, limit 1] flow =
      some ((flow.filter fun row => p.test E row).take 1) := rfl
  cases t with
  | findFirst =>
    refine ⟨_, hfirst, ?_, ?_⟩
    · simp only [Terminal.evaluate, Terminal.pulled, htwice]
    · simp only [Terminal.pulled, htwice]
  | findAny =>
    refine ⟨_, hfirst, ?_, ?_⟩
    · simp only [Terminal.evaluate, Terminal.pulled, htwice]
    · simp only [Terminal.pulled, htwice]
  | anyMatch p =>
    refine ⟨_, hsearch p, ?_, Flow.visits_upTo_take_filter _ flow⟩
    simp [Terminal.evaluate, Terminal.pulled, Flow.any_rows_upTo, any_take_one_filter]
  | noneMatch p =>
    refine ⟨_, hsearch p, ?_, Flow.visits_upTo_take_filter _ flow⟩
    simp [Terminal.evaluate, Terminal.pulled, Flow.any_rows_upTo, any_take_one_filter]
  | allMatch p =>
    refine ⟨_, hsearch (.not p), ?_, ?_⟩
    · simp [Terminal.evaluate, Terminal.pulled, Flow.all_rows_upTo, Predicate.test,
        all_take_one_filter_not]
    · exact Flow.visits_upTo_take_filter (fun row => !p.test E row) flow
  | _ => exact ⟨flow, rfl, rfl, rfl⟩

/-- The operations that optimization adds for a terminal operation. -/
def added (E : Entity ρ) (settings : OptimizerSettings) (t : Terminal ρ) : List (Operation ρ) :=
  if settings.terminal then shortCircuit E t else []

section Added

variable (settings : OptimizerSettings) (t : Terminal ρ)

lemma added_eq_nil {t : Terminal ρ} (h : shortCircuit E t = []) : added E settings t = [] := by
  unfold added
  rw [h, ite_self]

lemma selects_added : ∀ op ∈ added E settings t, op.Selects E := by
  unfold added
  split
  · exact selects_shortCircuit E t
  · exact nofun

theorem added_replays (E : Entity ρ) (flow : Flow ρ) :
    ∃ flow', replay? (added E settings t) flow = some flow' ∧
      t.evaluate E flow' = t.evaluate E flow ∧
      (t.pulled E flow').visits = (t.pulled E flow).visits := by
  unfold added
  split
  · exact shortCircuit_replays E t flow
  · exact ⟨flow, rfl, rfl, rfl⟩

lemma regular_append_added {ops : List (Operation ρ)} (hops : ∀ op ∈ ops, op.Regular E) :
    ∀ op ∈ ops ++ added E settings t, op.Regular E :=
  List.forall_mem_append.2 ⟨hops, fun op hop => (selects_added settings t op hop).regular⟩

lemma optimize_eq (E : Entity ρ) (ops : List (Operation ρ)) :
    optimize E settings (some t) ops =
      if settings.squash then squashToFixpoint E (ops ++ added E settings t)
      else ops ++ added E settings t := by
  unfold optimize added
  cases settings.terminal with
  | true => rfl
  | false => simp

theorem rewrites_optimize {ops : List (Operation ρ)} (hops : ∀ op ∈ ops, op.Regular E) :
    Rewrites E (ops ++ added E settings t) (optimize E settings (some t) ops) := by
  have hall := regular_append_added settings t hops
  rw [optimize_eq]
  split
  · exact rewrites_squashToFixpoint hall
  · exact .refl _

variable {ops : List (Operation ρ)}

/-- What optimization writes is there before, or picks or arranges rows. -/
lemma mem_optimize (hops : ∀ op ∈ ops, op.Regular E) :
    ∀ op ∈ optimize E settings (some t) ops, op ∈ ops ∨ op.Selects E := by
  intro op hop
  rcases (rewrites_optimize settings t hops).mem op hop with hop | hselects
  · exact (List.mem_append.1 hop).imp_right (selects_added settings t op)
  · exact Or.inr hselects

lemma regular_optimize (hops : ∀ op ∈ ops, op.Regular E) :
    ∀ op ∈ optimize E settings (some t) ops, op.Regular E :=
  (rewrites_optimize settings t hops).regular (regular_append_added settings t hops)

lemma lists_fitsThroughout_added {rows : List ρ} (h : lists.FitsThroughout ops rows) :
    lists.FitsThroughout (ops ++ added E settings t) rows := by
  refine fitsThroughout_append h fun rows' hrows' => ?_
  exact lists_fitsThroughout (fun op hop => (selects_added settings t op hop).shrinks)
    (h.fits_run hrows')

lemma flows_fitsThroughout_added {flow : Flow ρ} (h : flows.FitsThroughout ops flow) :
    flows.FitsThroughout (ops ++ added E settings t) flow := by
  refine fitsThroughout_append h fun flow' hflow' => ?_
  have hbounded : flow'.Bounded := h.fits_run hflow'
  have hfirst {flow : Flow ρ} (hflow : flow.Bounded) : flows.FitsThroughout [limit 1] flow := by
    refine ⟨hflow, fun z hz => ?_⟩
    obtain rfl := Option.some.inj hz
    exact Flow.Bounded.take_one flow
  have hsearch (p : Predicate ρ) : flows.FitsThroughout [filter E p, limit 1] flow' := by
    refine ⟨hbounded, fun z hz => ?_⟩
    obtain rfl := Option.some.inj hz
    exact hfirst (hbounded.filter _)
  unfold added
  split
  · cases t with
    | findFirst => exact hfirst hbounded
    | findAny => exact hfirst hbounded
    | anyMatch p => exact hsearch p
    | noneMatch p => exact hsearch p
    | allMatch p => exact hsearch (.not p)
    | _ => exact hbounded
  · exact hbounded

theorem rows_replay_optimize (hops : ∀ op ∈ ops, op.Regular E) (hrowWise : ∀ op ∈ ops, op.RowWise)
    {rows : List ρ} (hfits : lists.FitsThroughout ops rows) :
    (replay? (optimize E settings (some t) ops) (.ofRows rows)).map Flow.rows =
      (replay? (ops ++ added E settings t) (.ofRows rows)).map Flow.rows := by
  have hadded : ∀ op ∈ added E settings t, op.RowWise :=
    fun op hop => (Standard.selects (selects_added settings t op hop)).rowWise
  exact (rewrites_optimize settings t hops).rows_replay?
    (List.forall_mem_append.2 ⟨hrowWise, hadded⟩) (lists_fitsThroughout_added settings t hfits)

theorem replay_optimize (hops : ∀ op ∈ ops, op.Regular E) {flow : Flow ρ}
    (hfits : flows.FitsThroughout ops flow) :
    replay? (optimize E settings (some t) ops) flow =
      replay? (ops ++ added E settings t) flow := by
  have hrun := ((flows_obeys E).run?_rewrites (rewrites_optimize settings t hops)
    (flows_fitsThroughout_added settings t hfits)).1
  rwa [run?_flows, run?_flows] at hrun

end Added

end Operation

namespace Pipeline

open Operation Interpretation

/-- The terminal operation answers over the operations with its short circuit as it does over the
operations themselves, and under any settings also over what optimization leaves of them. Of an
iterator that is said of the rows that it hands out. -/
theorem optimize_answers {p : Pipeline ρ} {t : Terminal ρ} (ht : p.terminal? = some t)
    (hops : ∀ op ∈ p.operations, op.Standard E ∨ op.IsCustom ∧ op.RowWise ∧ op.transform.isSome)
    {rows : List ρ} (hfits : lists.FitsThroughout p.operations rows) :
    ∃ flow short, replay? p.operations (.ofRows rows) = some flow ∧
      replay? (p.operations ++ shortCircuit E t) (.ofRows rows) = some short ∧
      t.evaluate E short = t.evaluate E flow ∧
      ∀ settings, ∃ flow', replay? (p.optimize E settings).operations (.ofRows rows) = some flow' ∧
        (t.evaluate E flow').drained = (t.evaluate E flow).drained ∧
        ∀ o, t = .forEach o → flow'.rows = flow.rows := by
  have hregular : ∀ op ∈ p.operations, op.Regular E :=
    fun op hop => (hops op hop).imp_right And.left
  have hrowWise : ∀ op ∈ p.operations, op.RowWise :=
    fun op hop => (hops op hop).elim Standard.rowWise fun h => h.2.1
  have htransform : ∀ op ∈ p.operations, op.transform.isSome :=
    fun op hop => (hops op hop).elim Standard.transform_isSome fun h => h.2.2
  obtain ⟨flow, hflow⟩ := replay?_isSome htransform (.ofRows rows)
  obtain ⟨short, hshort, hanswer, -⟩ := shortCircuit_replays E t flow
  refine ⟨flow, short, hflow, ?_, hanswer, fun settings => ?_⟩
  · rw [replay?_append, hflow, Option.bind_some, hshort]
  · obtain ⟨last, hlast, hevaluate, -⟩ := added_replays settings t E flow
    have hrows := rows_replay_optimize settings t hregular hrowWise hfits
    rw [replay?_append, hflow, Option.bind_some, hlast] at hrows
    obtain ⟨flow', hflow', hsame⟩ := Option.map_eq_some_iff.1 hrows
    refine ⟨flow', ?_, ?_, ?_⟩
    · rw [optimize, ht]
      exact hflow'
    · rw [t.drained_evaluate_congr hsame, hevaluate]
    · rintro o rfl
      rw [added_eq_nil settings rfl] at hlast
      obtain rfl : flow = last := Option.some.inj hlast
      exact hsame

theorem optimize_answers_records :
    let E := Entity.ofColumns "User" "id" ["id", "name"]
    let row (n : Int64) (name : Value) : Record := ⟨[("id", .int n), ("name", name)]⟩
    let rows := [row 3 (.text "A"), row 1 .null, row 2 (.text "C"), row 4 (.text "B")]
    let named (name : String) : Predicate Record := .column ⟨"name", .eq (.text name)⟩
    let reversed := (custom "REVERSED").withTransform (.rearrange List.reverse)
    let ops := [filter E (.not (named "C")), limit Count.greatest, filter E .always, skip 0,
      sortedBy E (.column "name" .descending), reversed, distinct E, limit 9]
    let t : Terminal Record := .allMatch (.not (.not (.any [named "A", named "B"])))
    let p := { Pipeline.ofOperations E ops with terminal? := some t }
    p.terminal? = some t ∧
      (∀ op ∈ p.operations, op.Standard E ∨ op.IsCustom ∧ op.RowWise ∧ op.transform.isSome) ∧
      lists.FitsThroughout p.operations rows ∧
      ∃ flow short, replay? p.operations (.ofRows rows) = some flow ∧
        replay? (p.operations ++ shortCircuit E t) (.ofRows rows) = some short ∧
        t.evaluate E short = t.evaluate E flow ∧
        ∀ settings, ∃ flow',
          replay? (p.optimize E settings).operations (.ofRows rows) = some flow' ∧
          (t.evaluate E flow').drained = (t.evaluate E flow).drained ∧
          ∀ o, t = .forEach o → flow'.rows = flow.rows := by
  intro E row rows named reversed ops t p
  have hcustom : reversed.IsCustom ∧ reversed.RowWise ∧ reversed.transform.isSome :=
    ⟨⟨_, rfl⟩, rowWise_withTransform_rearrange _ List.reverse, rfl⟩
  have hshrinks : reversed.Shrinks :=
    shrinks_withTransform_rearrange _ fun _ => Nat.le_of_eq List.length_reverse
  have hkinds : ∀ op ∈ ops, op.Selects E ∨ op = reversed := by
    simp only [ops, List.forall_mem_cons]
    exact ⟨Or.inl (.filter _), Or.inl (.limit _), Or.inl (.filter _), Or.inl (.skip _),
      Or.inl (.sortedBy trivial), Or.inr trivial, Or.inl .distinct, Or.inl (.limit _), nofun⟩
  have hops : ∀ op ∈ p.operations,
      op.Standard E ∨ op.IsCustom ∧ op.RowWise ∧ op.transform.isSome := by
    intro op hop
    rcases hkinds op hop with h | rfl
    · exact Or.inl (.selects h)
    · exact Or.inr hcustom
  have hfits : lists.FitsThroughout p.operations rows := by
    refine lists_fitsThroughout (fun op hop => ?_) (by decide)
    rcases hkinds op hop with h | rfl
    · exact h.shrinks
    · exact hshrinks
  exact ⟨rfl, hops, hfits, optimize_answers rfl hops hfits⟩

end Pipeline
end Pushdown
