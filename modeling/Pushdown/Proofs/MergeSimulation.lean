import Pushdown.Proofs.Replay
import Pushdown.Proofs.Selection

/-!
# Merge simulation

A merge pass moves work from replay into the query. At each step, replaying the operations that are
left over what the query answers comes to the same flow as before.
-/

namespace Pushdown

open Operation

variable {ρ : Type}

namespace Absorption

variable {σ : Type} {verdict : Operation ρ → σ → Verdict ρ σ} {answer : σ → List ρ}
  {Good : σ → Prop}

/-- What a verdict promises: the new target answers what the operation makes of the old answer, or
leaves a residual that does. -/
def Keeps (answer : σ → List ρ) (Good : σ → Prop) (op : Operation ρ) (target : σ) :
    Verdict ρ σ → Prop
  | .declines | .fails _ => True
  | .absorbs target' => Good target' ∧
      replay? [op] (.ofRows (answer target)) = some (.ofRows (answer target'))
  | .divides target' residual => Good target' ∧
      replay? [op] (.ofRows (answer target)) = replay? [residual] (.ofRows (answer target'))

/-- If every verdict keeps the answer, the absorption does. -/
theorem replay?_absorb {ops : List (Operation ρ)}
    (hkeeps : ∀ op ∈ ops, ∀ target, Good target → Keeps answer Good op target (verdict op target))
    {target : σ} (hgood : Good target) :
    let a := absorb verdict ops target
    Good a.target ∧
      replay? a.left (.ofRows (answer a.target)) = replay? ops (.ofRows (answer target)) := by
  induction ops generalizing target with
  | nil => exact ⟨hgood, rfl⟩
  | cons op ops ih =>
    obtain ⟨hop, hops⟩ := List.forall_mem_cons.1 hkeeps
    replace hop := hop target hgood
    have hsplit (op : Operation ρ) (flow : Flow ρ) :
        replay? (op :: ops) flow = (replay? [op] flow).bind (replay? ops) :=
      replay?_append [op] ops flow
    rw [absorb]
    cases hv : verdict op target with
    | declines => exact ⟨hgood, rfl⟩
    | fails e => exact ⟨hgood, rfl⟩
    | absorbs target' =>
      rw [hv] at hop
      obtain ⟨hgood', hreplay⟩ := hop
      rw [hsplit, hreplay]
      exact ih hops hgood'
    | divides target' residual =>
      rw [hv] at hop
      obtain ⟨hgood', hreplay⟩ := hop
      refine ⟨hgood', ?_⟩
      rw [hsplit, hreplay, ← hsplit]
      rfl

end Absorption

namespace Operation

variable (E : Entity ρ) (rows : List ρ)

lemma replay?_singleton {op : Operation ρ} {t : Transform ρ} (ht : op.transform = some t)
    (flow : Flow ρ) : replay? [op] flow = some (t flow) := by
  rw [replay?_cons, ht]
  rfl

lemma replay?_filter (p : Predicate ρ) :
    replay? [filter E p] (.ofRows rows) = some (.ofRows (rows.filter fun row => p.test E row)) := by
  rw [replay?_singleton rfl, Flow.filter_ofRows]

lemma replay?_distinct :
    replay? [distinct E] (.ofRows rows) = some (.ofRows (E.distinctRows rows)) := by
  rw [replay?_singleton rfl, Flow.distinct_ofRows]
  rfl

lemma replay?_sorted :
    replay? [sorted E] (.ofRows rows) = some (.ofRows (Comparator.natural.sort E rows)) := by
  rw [replay?_singleton rfl, Flow.rearrange_ofRows]

lemma replay?_sortedBy (c : Comparator ρ) :
    replay? [sortedBy E c] (.ofRows rows) = some (.ofRows (c.sort E rows)) := by
  rw [replay?_singleton rfl, Flow.rearrange_ofRows]

lemma replay?_skip (n : UInt64) :
    replay? [skip n] (.ofRows rows) = some (.ofRows (rows.drop n.toNat)) := by
  rw [replay?_singleton rfl, Flow.drop_ofRows]

lemma replay?_limit (n : UInt64) :
    replay? [limit n] (.ofRows rows) = some (.ofRows (rows.take n.toNat)) := by
  rw [replay?_singleton rfl, Flow.take_ofRows]

end Operation

namespace Store

variable {s : Store ρ} {q : Query}

/-- What the store answers to criteria under the window of `q`. -/
def answered (s : Store ρ) (q : Query) (c : Criteria) : List ρ := window q (s.select c)

/-- Criteria under the window of `q` that the store answers with rows. A window shows in the
criteria, so without it all rows come. -/
structure Serves (s : Store ρ) (q : Query) (c : Criteria) : Prop where
  accepted : s.refusal? c = none
  selection_ne : c.selection ≠ .count
  unwindowed : c.windowed = false → ∀ rows : List ρ, window q rows = rows

section Verdicts

variable {c : Criteria} (hc : s.Serves q c)

include hc

lemma Serves.of_unwindowed {c' : Criteria} (haccepted : s.refusal? c' = none)
    (hselection : c'.selection = c.selection) (hwindowed : c.windowed = false) :
    s.Serves q c' where
  accepted := haccepted
  selection_ne := hselection ▸ hc.selection_ne
  unwindowed _ := hc.unwindowed hwindowed

lemma Serves.answered_eq (hwindowed : c.windowed = false) : s.answered q c = s.select c :=
  hc.unwindowed hwindowed (s.select c)

/-- A conjunction may be divided, the one part into the restriction and the other left behind. -/
lemma keeps_onConjuncts (hwindowed : c.windowed = false) {p : Predicate ρ}
    {pushable residual : List (Predicate ρ)}
    (htest : ∀ row, p.test s.entity row = ((Predicate.ofConjuncts pushable).test s.entity row &&
      (Predicate.ofConjuncts residual).test s.entity row)) :
    Absorption.Keeps (s.answered q) (s.Serves q) (filter s.entity p) c
      (Verdict.onConjuncts s.entity c pushable residual) := by
  have hbefore := hc.answered_eq hwindowed
  unfold Verdict.onConjuncts
  by_cases hpushable : pushable.isEmpty = true
  · rw [if_pos hpushable]
    trivial
  · rw [if_neg hpushable]
    cases hlower : Lowering.lowerList s.entity c.parameters.length pushable with
    | error e => trivial
    | ok lowered =>
      have hstates := Lowering.States.ofConjuncts (Lowering.lowerList_ok _ _ hlower)
      have hselect := select_restrict hc.selection_ne hstates lowered.2
      have hgood : s.Serves q (c.restrict (Restriction.ofConjuncts lowered.1) lowered.2) :=
        hc.of_unwindowed hc.accepted rfl hwindowed
      have hafter := hgood.answered_eq hwindowed
      by_cases hresidual : residual.isEmpty = true
      · have hp : (fun row => p.test s.entity row) =
            fun row => (Predicate.ofConjuncts pushable).test s.entity row := by
          funext row
          rw [htest, List.isEmpty_iff.1 hresidual]
          exact Bool.and_true _
        simp only [if_pos hresidual]
        refine ⟨hgood, ?_⟩
        rw [replay?_filter, hbefore, hafter, hselect, hp]
      · have hp : (fun row => p.test s.entity row) = fun row =>
            (Predicate.ofConjuncts residual).test s.entity row &&
              (Predicate.ofConjuncts pushable).test s.entity row := by
          funext row
          rw [htest, Bool.and_comm]
        simp only [if_neg hresidual]
        refine ⟨hgood, ?_⟩
        rw [replay?_filter, replay?_filter, hbefore, hafter, hselect, List.filter_filter, hp]

lemma keeps_onFilter (p : Predicate ρ) :
    Absorption.Keeps (s.answered q) (s.Serves q) (filter s.entity p) c
      (Verdict.onFilter s.entity (filter s.entity p) c) := by
  unfold Verdict.onFilter
  cases hwindowed : c.windowed with
  | true => trivial
  | false =>
    apply keeps_onConjuncts hc hwindowed
    intro row
    rw [Predicate.test_ofConjuncts, Predicate.test_ofConjuncts]
    exact Predicate.test_eq_partition s.entity row Predicate.isPushable p

lemma keeps_onSort (hprimary : s.entity.hasColumn s.entity.primaryKey = true) {op : Operation ρ}
    (hop : op = sorted s.entity ∨ ∃ d : Comparator ρ, d.IsOrder ∧ op = sortedBy s.entity d) :
    Absorption.Keeps (s.answered q) (s.Serves q) op c
      (Verdict.onSort s.entity op c) := by
  have hsort (rows : List ρ) : replay? [op] (.ofRows rows) =
      some (.ofRows ((op.comparator?.getD .natural).sort s.entity rows)) := by
    rcases hop with rfl | ⟨d, -, rfl⟩
    · exact replay?_sorted s.entity rows
    · exact replay?_sortedBy s.entity rows d
  unfold Verdict.onSort
  simp only
  generalize op.comparator?.getD .natural = d at hsort
  by_cases hstops : (c.windowed || !d.isPushable) = true
  · rw [if_pos hstops]
    trivial
  · have hwindowed : c.windowed = false := by
      cases h : c.windowed with
      | false => rfl
      | true => simp [h] at hstops
    rw [if_neg hstops]
    cases hterms : Lowering.orderTerms s.entity d with
    | error e => trivial
    | ok terms =>
      obtain ⟨hcolumns, hcompare⟩ := Lowering.orderTerms_ok hprimary d hterms
      have haccepted := refusal?_prependOrder hc.accepted hcolumns
      have hgood : s.Serves q (c.prependOrder terms) := hc.of_unwindowed haccepted rfl hwindowed
      refine ⟨hgood, ?_⟩
      rw [hsort, hc.answered_eq hwindowed, hgood.answered_eq hwindowed,
        select_prependOrder hc.selection_ne, Comparator.sort_congr hcompare]

lemma keeps_onDistinct :
    Absorption.Keeps (s.answered q) (s.Serves q) (distinct s.entity) c
      (Verdict.onDistinct (distinct s.entity) c) := by
  unfold Verdict.onDistinct
  cases hwindowed : c.windowed with
  | true => trivial
  | false =>
    have hknows := (refusal?_eq_none.1 hc.accepted).2.2
    have hgood : s.Serves q (c.setDistinct true) := hc.of_unwindowed hc.accepted rfl hwindowed
    refine ⟨hgood, ?_⟩
    rw [replay?_distinct, hc.answered_eq hwindowed, hgood.answered_eq hwindowed,
      select_setDistinct hc.selection_ne hknows]

lemma keeps_onCriteria (hprimary : s.entity.hasColumn s.entity.primaryKey = true)
    {op : Operation ρ} (hop : op.Regular s.entity) :
    Absorption.Keeps (s.answered q) (s.Serves q) op c (Verdict.onCriteria s.entity op c) := by
  unfold Verdict.onCriteria
  cases hkind : op.kind with
  | filter =>
    obtain ⟨p, rfl⟩ := hop.hasForm hkind
    exact keeps_onFilter hc p
  | sorted => exact keeps_onSort hc hprimary (hop.hasForm hkind)
  | distinct =>
    obtain rfl := hop.hasForm hkind
    exact keeps_onDistinct hc
  | _ => trivial

end Verdicts

/-- What the store answers to `q`. -/
def answer (s : Store ρ) (q : Query) : List ρ := s.answered q q.criteria

lemma answer_execute (h : s.refusal? q.criteria = none) :
    (s.execute q).answer = .ok (s.answer q) := by
  rw [execute, h]
  rfl

lemma keeps_onQuery (hrows : s.rows.length < UInt64.size) (hq : s.refusal? q.criteria = none)
    {op : Operation ρ} (hop : op.Regular s.entity) :
    Absorption.Keeps s.answer (fun q => s.refusal? q.criteria = none) op q
      (Verdict.onQuery op q) := by
  unfold Verdict.onQuery
  cases hkind : op.kind with
  | skip =>
    obtain ⟨n, rfl⟩ := hop.hasForm hkind
    have hcriteria := q.criteria_skipping n
    have hselect : (s.select q.criteria).length < UInt64.size :=
      Nat.lt_of_le_of_lt (length_select_le s q.criteria) hrows
    have hgood : s.refusal? (q.skipping n).criteria = none := by
      rw [hcriteria]
      exact hq
    refine ⟨hgood, ?_⟩
    rw [replay?_skip, answer, answer, answered, answered, hcriteria, ← window_skipping q n hselect]
    rfl
  | limit =>
    obtain ⟨n, rfl⟩ := hop.hasForm hkind
    refine ⟨hq, ?_⟩
    rw [replay?_limit, answer, answer, answered, answered, ← window_limitedTo]
    rfl
  | _ => trivial

end Store

namespace Query

/-- The criteria show that a window lies over them, if one does. So they do however the two ends of
the window are set. -/
def WindowMarked (q : Query) : Prop :=
  q.criteria.windowed = false → q.firstResult = 0 ∧ q.maxResults? = none

lemma windowMarked_ofCriteria (c : Criteria) : (ofCriteria c).WindowMarked := fun _ => ⟨rfl, rfl⟩

lemma windowMarked_setFirstResult (q : Query) (n : UInt64) : (q.setFirstResult n).WindowMarked :=
  nofun

lemma windowMarked_setMaxResults (q : Query) (n : UInt64) : (q.setMaxResults n).WindowMarked :=
  nofun

lemma WindowMarked.window_eq {q : Query} (h : q.WindowMarked)
    (hwindowed : q.criteria.windowed = false) (rows : List ρ) : Store.window q rows = rows := by
  obtain ⟨hfirst, hmost⟩ := h hwindowed
  rw [Store.window, hfirst, hmost]
  rfl

end Query

namespace Store

variable {s : Store ρ} {q : Query} {ops : List (Operation ρ)}

theorem replay_mergeCriteria (hprimary : s.entity.hasColumn s.entity.primaryKey = true)
    (hops : ∀ op ∈ ops, op.Regular s.entity) {c : Criteria} (hc : s.Serves q c) :
    let p := (Registry.standard s.entity).mergeCriteria ops c
    s.Serves q p.target ∧ (∀ op ∈ p.operations, op ∈ ops ∨ op.Selects s.entity) ∧
      replay? p.operations (.ofRows (s.answered q p.target)) =
        replay? ops (.ofRows (s.answered q c)) := by
  intro p
  obtain ⟨hleft, htarget, -⟩ := Registry.mergeCriteria_standard s.entity ops c
  obtain ⟨hserves, hreplay⟩ := Absorption.replay?_absorb
    (fun op hop _ hc => keeps_onCriteria hc hprimary (hops op hop)) hc
  simp only [p, hleft, htarget]
  refine ⟨hserves, fun op hop => ?_, hreplay⟩
  rcases Registry.mem_left_absorbCriteria s.entity op hop with hop | ⟨r, rfl⟩
  · exact Or.inl hop
  · exact Or.inr (.filter r)

theorem replay_mergeQuery (hrows : s.rows.length < UInt64.size)
    (hops : ∀ op ∈ ops, op.Regular s.entity) (hq : s.refusal? q.criteria = none) :
    let p := (Registry.standard s.entity).mergeQuery ops q
    s.refusal? p.target.criteria = none ∧ (∀ op ∈ p.operations, op ∈ ops) ∧
      replay? p.operations (.ofRows (s.answer p.target)) =
        replay? ops (.ofRows (s.answer q)) := by
  intro p
  obtain ⟨hleft, htarget, -⟩ := Registry.mergeQuery_standard s.entity ops q
  obtain ⟨haccepted, hreplay⟩ := Absorption.replay?_absorb
    (fun op hop _ hq => keeps_onQuery hrows hq (hops op hop)) hq
  simp only [p, hleft, htarget]
  exact ⟨haccepted, Registry.mem_left_absorbQuery, hreplay⟩

/-- The operations that a merge leaves make of the answer to the new query the very flow that all of
them make of the answer to the old one. -/
theorem replay_merge (hprimary : s.entity.hasColumn s.entity.primaryKey = true)
    (hrows : s.rows.length < UInt64.size) (haccepted : s.refusal? q.criteria = none)
    (hselection : q.criteria.selection ≠ .count) (hmarked : q.WindowMarked)
    (hops : ∀ op ∈ ops, op.Standard s.entity) :
    let p := (Registry.standard s.entity).merge ops q
    ∃ rows rows' flow, (s.execute q).answer = .ok rows ∧ (s.execute p.target).answer = .ok rows' ∧
      replay? ops (.ofRows rows) = some flow ∧ replay? p.operations (.ofRows rows') = some flow := by
  intro p
  let first := (Registry.standard s.entity).mergeCriteria ops q.criteria
  have hregular : ∀ op ∈ ops, op.Regular s.entity := fun op hop => Or.inl (hops op hop)
  have hserves : s.Serves q q.criteria := ⟨haccepted, hselection, hmarked.window_eq⟩
  obtain ⟨hserves', hmem, hcriteria⟩ := replay_mergeCriteria hprimary hregular hserves
  have hregular' : ∀ op ∈ first.operations, op.Regular s.entity := regular_of_mem hregular hmem
  have haccepted' : s.refusal? { q with criteria := first.target }.criteria = none :=
    hserves'.accepted
  obtain ⟨haccepted'', -, hquery⟩ := replay_mergeQuery hrows hregular' haccepted'
  obtain ⟨flow, hflow⟩ := replay?_isSome (fun op hop => (hops op hop).transform_isSome)
    (.ofRows (s.answer q))
  refine ⟨s.answer q, s.answer p.target, flow, answer_execute haccepted,
    answer_execute haccepted'', hflow, ?_⟩
  have hboth : replay? p.operations (.ofRows (s.answer p.target)) =
      replay? ops (.ofRows (s.answer q)) := hquery.trans hcriteria
  rw [hboth, hflow]

theorem replay_merge_records :
    let E := Entity.ofColumns "User" "id" ["id", "name"]
    let row (n : Int64) (name : String) : Record := ⟨[("id", .int n), ("name", .text name)]⟩
    let s := Store.new E [row 3 "A", row 1 "B", row 2 "C", row 3 "A", row 4 "B", row 5 "D"]
    let c := ((Criteria.new "User").restrict (.compare ⟨"name", .ne (.text "C")⟩ [":p1"])
      [⟨":p1", .text "C"⟩]).prependOrder [⟨"name", .ascending⟩]
    let q := Query.ofCriteria c
    let ops := [filter E (.column ⟨"id", .gt (.int 1)⟩), distinct E, sorted E,
      sortedBy E (.column "name" .descending), skip 1, limit 2, peek ⟨1, "seen"⟩, limit 1]
    let p := (Registry.standard E).merge ops q
    E.hasColumn E.primaryKey = true ∧ s.rows.length < UInt64.size ∧
      s.refusal? q.criteria = none ∧ q.criteria.selection ≠ .count ∧ q.WindowMarked ∧
      (∀ op ∈ ops, op.Standard E) ∧
      ∃ rows rows' flow, (s.execute q).answer = .ok rows ∧
        (s.execute p.target).answer = .ok rows' ∧ replay? ops (.ofRows rows) = some flow ∧
        replay? p.operations (.ofRows rows') = some flow := by
  intro E row s c q ops p
  have hprimary : s.entity.hasColumn s.entity.primaryKey = true := by decide
  have hrows : s.rows.length < UInt64.size := by decide
  have haccepted : s.refusal? q.criteria = none := by decide
  have hselection : q.criteria.selection ≠ .count := by decide
  have hmarked : q.WindowMarked := Query.windowMarked_ofCriteria c
  have hops : ∀ op ∈ ops, op.Standard E := by
    simp only [ops, List.forall_mem_cons]
    exact ⟨.selects (.filter _), .selects .distinct, .selects .sorted,
      .selects (.sortedBy trivial), .selects (.skip _), .selects (.limit _), .peek _,
      .selects (.limit _), nofun⟩
  exact ⟨hprimary, hrows, haccepted, hselection, hmarked, hops,
    replay_merge hprimary hrows haccepted hselection hmarked hops⟩

end Store
end Pushdown
