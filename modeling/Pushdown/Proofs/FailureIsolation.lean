import Pushdown.Proofs.Lowering
import Pushdown.Proofs.RepeatedMerges

/-!
# Isolation of failures

An argument that cannot be lowered stops its pass, and that is all it does: the pass comes to the
same as a pass over the operations before it, with one failure in the report. Whether a pass did
anything at all shows in the counts that it reports.
-/

namespace Pushdown

open Absorption

variable {ρ σ : Type}

namespace Pass

/-- The failures of a pass, each with the position of its operation. -/
def failuresAt (strategies : Kind → List (Strategy ρ σ)) (ops : List (Operation ρ)) (target : σ) :
    List (Nat × LoweringError) :=
  (walk strategies 0 ops ⟨target, .new⟩).tracker.failures

/-- The pass over `ops` and `target` reports that it did nothing just if it left both as they
were. -/
def SaysIfIdle (p : Pass ρ σ) (ops : List (Operation ρ)) (target : σ) : Prop :=
  p.outcome.isNoop = true ↔ p.operations = ops ∧ p.target = target

variable {strategies : Kind → List (Strategy ρ σ)} {verdict : Operation ρ → σ → Verdict ρ σ}
  {Inv : MergeState ρ σ → Prop}

/-- A walk that fails on an operation ends in the state that the walk over the operations before it
ends in, and the failure is entered there. -/
lemma walk_of_failure (hfollows : Follows strategies verdict Inv) {i : Nat} {s : MergeState ρ σ}
    (hinv : Inv s) (hclean : s.tracker.failures = []) (ops : List (Operation ρ)) {k : Nat}
    {e : LoweringError} (h : (k, e) ∈ (walk strategies i ops s).tracker.failures) :
    ∃ n, k = i + n ∧ n < ops.length ∧
      let before := walk strategies i (ops.take n) s
      walk strategies i ops s = { before with tracker := before.tracker.recordFailure k e } ∧
        before.tracker.failures = [] := by
  induction ops generalizing i s with
  | nil =>
    rw [walk, hclean] at h
    cases h
  | cons op ops ih =>
    obtain ⟨hnext, hinv'⟩ := hfollows i op s hinv
    have hclean' := hnext.failures_eq
    rw [hclean] at hclean'
    rw [walk] at h
    cases hstep : tryEach i op (strategies op.kind) s with
    | mk s' failure? =>
      rw [hstep] at hnext hinv' hclean'
      simp only [hstep] at h
      cases failure? with
      | some e' =>
        have hs' : s' = s := hnext.eq_of_failure rfl
        subst hs'
        simp only [Tracker.recordFailure, hclean, List.nil_append, List.mem_singleton,
          Prod.mk.injEq] at h
        obtain ⟨rfl, rfl⟩ := h
        refine ⟨0, rfl, Nat.succ_pos _, ?_⟩
        simp only [walk, hstep, List.take_zero]
        exact ⟨trivial, hclean⟩
      | none =>
        by_cases hmarked : s'.tracker.isMarkedForRemoval i = true
        · simp only [hmarked, if_true] at h
          obtain ⟨n, rfl, hn, hwalk⟩ := ih hinv' hclean' h
          refine ⟨n + 1, by omega, Nat.succ_lt_succ hn, ?_⟩
          simp only [walk, hstep, hmarked, if_true, List.take_succ_cons]
          exact hwalk
        · simp only [hmarked] at h
          rw [if_neg (by simp), hclean'] at h
          cases h

/-- A pass that fails does what a pass over the operations before the failing one does, reports one
failure, and leaves the failing operation and all behind it. -/
theorem run_of_failure (hfollows : Follows strategies verdict Inv) (ops : List (Operation ρ))
    {target : σ} (hinv : Inv ⟨target, .new⟩) {k : Nat} {e : LoweringError}
    (h : (k, e) ∈ failuresAt strategies ops target) :
    let whole := run strategies ops target
    let before := run strategies (ops.take k) target
    k < ops.length ∧ whole.target = before.target ∧
      whole.outcome = { before.outcome with failures := [e] } ∧ before.outcome.failures = [] ∧
      whole.operations = ops.drop k := by
  intro whole before
  obtain ⟨n, hn, hlt, hwalk, hclean⟩ := walk_of_failure hfollows hinv rfl ops h
  obtain rfl : k = n := by omega
  obtain ⟨hleft, -⟩ := run_eq hfollows ops hinv
  -- the absorption fails on the same operation, since the walk follows it
  obtain ⟨hfailure, hk⟩ : (absorb verdict ops target).failure? = some e ∧
      k = (absorb verdict ops target).absorbed := by
    rw [failuresAt, (walk_eq hfollows hinv (i := 0) rfl ops).2.2] at h
    cases hfailure : (absorb verdict ops target).failure? with
    | none => simp [hfailure, Tracker.new] at h
    | some e' =>
      simp only [hfailure, Tracker.new, Option.toList_some, List.map_cons, List.map_nil,
        List.nil_append, List.mem_singleton, Prod.mk.injEq, Nat.zero_add] at h
      exact ⟨congrArg some h.2.symm, h.1⟩
  refine ⟨hlt, ?_, ?_, ?_, ?_⟩
  · simp only [whole, before, run, hwalk]
  · simp only [whole, before, run, hwalk, Tracker.outcome, Tracker.recordFailure, hclean]
    rfl
  · simp only [before, run, Tracker.outcome, hclean, List.map_nil]
  · rw [hk]
    exact hleft.trans (left_of_failure hfailure)

end Pass

/-- Another conjunct changes the criteria. -/
lemma Criteria.restrict_ne (c : Criteria) {r : Restriction} (hr : r.conjuncts ≠ [])
    (bindings : List Binding) : c.restrict r bindings ≠ c := by
  intro h
  have hrestriction := congrArg Criteria.restriction? h
  unfold Criteria.restrict at hrestriction
  cases hold : c.restriction? with
  | none => simp [hold] at hrestriction
  | some old =>
    simp only [hold, Option.some.injEq, Restriction.and] at hrestriction
    cases old with
    | all rs => exact hr (List.append_right_eq_self.1 (Restriction.all.inj hrestriction))
    | _ => cases hrestriction

lemma Verdict.ne_of_divides {E : Entity ρ} {op residual : Operation ρ} {c c' : Criteria}
    (h : onCriteria E op c = divides c' residual) : c' ≠ c := by
  have hkind := (residual_of_onCriteria h).1
  have htarget : (onCriteria E op c).target? = some c' := by rw [h]; rfl
  cases (takes_of_onCriteria htarget).2 with
  | @restrict p restrictions bindings _ hp hpushable hlower =>
    refine c.restrict_ne (Lowering.conjuncts_of_lowerList hpushable (fun q hq => ?_) hlower)
      bindings
    exact Predicate.ne_all_of_mem_conjuncts p (List.mem_filter.1 hq).1
  | prependOrder hsorted =>
    rw [hkind] at hsorted
    cases hsorted
  | setDistinct hdistinct =>
    rw [hkind] at hdistinct
    cases hdistinct

namespace Registry

variable (E : Entity ρ)

lemma saysIfIdle_mergeCriteria (ops : List (Operation ρ)) (c : Criteria) :
    ((standard E).mergeCriteria ops c).SaysIfIdle ops c := by
  obtain ⟨hoperations, htarget, -⟩ := mergeCriteria_standard E ops c
  rw [Pass.SaysIfIdle, hoperations, htarget]
  exact (Pass.isNoop_run_iff (criteria_follows E) ops nofun).trans
    (halts_iff_unchanged fun _ _ _ _ => Verdict.ne_of_divides)

lemma saysIfIdle_mergeQuery (ops : List (Operation ρ)) (q : Query) :
    ((standard E).mergeQuery ops q).SaysIfIdle ops q := by
  obtain ⟨hoperations, htarget, -⟩ := mergeQuery_standard E ops q
  rw [Pass.SaysIfIdle, hoperations, htarget]
  exact (Pass.isNoop_run_iff (query_follows E) ops trivial).trans
    (halts_iff_unchanged fun _ _ _ _ h => absurd h Verdict.onQuery_ne_divides)

/-- Both passes shorten the operations by what they absorb, and the query pass never divides one. So
if neither the operations nor the query have changed, neither pass has done anything. -/
lemma saysIfIdle_merge (ops : List (Operation ρ)) (q : Query) :
    ((standard E).merge ops q).SaysIfIdle ops q := by
  let p := (standard E).merge ops q
  obtain ⟨hoperations, htarget, hremoved, hreplaced⟩ := merge_standard E ops q
  let a := absorbCriteria E ops q.criteria
  let q' : Query := { q with criteria := a.target }
  let b := absorbQuery a.left q'
  have hresidual : b.residual? = none :=
    residual?_eq_none (fun _ _ _ _ => Verdict.onQuery_ne_divides) a.left q'
  have hnoop : p.outcome.isNoop = true ↔
      Halts (Verdict.onCriteria E) ops q.criteria ∧ Halts Verdict.onQuery a.left q' := by
    have hzero : p.outcome.isNoop = true ↔
        (a.absorbed = 0 ∧ a.residual? = none) ∧ b.absorbed = 0 ∧ b.residual? = none := by
      rw [MergeOutcome.isNoop, Bool.and_eq_true, beq_iff_eq, beq_iff_eq, hremoved, hreplaced,
        Nat.add_eq_zero_iff, Nat.add_eq_zero_iff, List.length_eq_zero_iff, List.length_eq_zero_iff,
        Option.toList_eq_nil_iff, Option.toList_eq_nil_iff, and_and_and_comm]
    rw [hzero, halts_iff, halts_iff]
    rfl
  refine hnoop.trans ⟨?_, ?_⟩
  · rintro ⟨hcriteria, hquery⟩
    obtain ⟨hleft, htarget'⟩ := hcriteria.unchanged
    obtain ⟨hleft', hq'⟩ := hquery.unchanged
    refine ⟨hoperations.trans (hleft'.trans hleft), htarget.trans (hq'.trans ?_)⟩
    exact congrArg (fun c => ({ q with criteria := c } : Query)) htarget'
  · rintro ⟨hops, hq⟩
    have hleft : b.left = ops := hoperations.symm.trans hops
    have hlength : a.left.length + a.absorbed = ops.length := length_left _ ops q.criteria
    have hlength' : b.left.length + b.absorbed = a.left.length := length_left _ a.left q'
    rw [hleft] at hlength'
    have hidle : b.absorbed = 0 := by omega
    have hquery : Halts Verdict.onQuery a.left q' := halts_iff.2 ⟨hidle, hresidual⟩
    obtain ⟨hleft', hq'⟩ := hquery.unchanged
    refine ⟨(halts_iff_unchanged fun _ _ _ _ => Verdict.ne_of_divides).2 ⟨?_, ?_⟩, hquery⟩
    · exact hleft'.symm.trans hleft
    · have hsame : q' = q := hq'.symm.trans (htarget.symm.trans hq)
      exact congrArg Query.criteria hsame

/-- A failure in the criteria pass is isolated: the pass comes to the same as one over the
operations before the failing one, but for the failure that it reports. Every pass, and the merge of
both, says truly whether it did nothing. -/
theorem failure_isolated (E : Entity ρ) :
    (∀ (ops : List (Operation ρ)) (c : Criteria) (k : Nat) (e : LoweringError),
      (k, e) ∈ Pass.failuresAt (standard E).criteriaFor ops c →
        let whole := (standard E).mergeCriteria ops c
        let before := (standard E).mergeCriteria (ops.take k) c
        k < ops.length ∧ whole.target = before.target ∧
          whole.outcome = { before.outcome with failures := [e] } ∧
          before.outcome.failures = [] ∧ whole.operations = ops.drop k) ∧
    (∀ (ops : List (Operation ρ)) (c : Criteria),
      ((standard E).mergeCriteria ops c).SaysIfIdle ops c) ∧
    ∀ (ops : List (Operation ρ)) (q : Query),
      ((standard E).mergeQuery ops q).SaysIfIdle ops q ∧
        ((standard E).merge ops q).SaysIfIdle ops q := by
  refine ⟨fun ops c k e h => ?_, fun ops c => ?_, fun ops q => ⟨?_, ?_⟩⟩
  · exact Pass.run_of_failure (criteria_follows E) ops nofun h
  · exact saysIfIdle_mergeCriteria E ops c
  · exact saysIfIdle_mergeQuery E ops q
  · exact saysIfIdle_merge E ops q

theorem failure_isolated_records :
    let E := Entity.ofColumns "User" "id" ["id", "name"]
    let adult : Operation Record := .filter E (.column ⟨"id", .gt (.int 20)⟩)
    let broken := Operation.filter E
      (.all [.column ⟨"name", .ne (.text "A")⟩, .column ⟨"id", .isIn []⟩])
    let ops := [adult, broken, .distinct E]
    let c := Criteria.new "User"
    let whole := (standard E).mergeCriteria ops c
    let before := (standard E).mergeCriteria [adult] c
    (1, .emptyList "id" "in") ∈ Pass.failuresAt (standard E).criteriaFor ops c ∧
      whole.target = before.target ∧
      whole.outcome = { before.outcome with failures := [.emptyList "id" "in"] } ∧
      before.outcome.failures = [] ∧ whole.operations = [broken, .distinct E] := by
  intro E adult broken ops c whole before
  have hfails : (1, .emptyList "id" "in") ∈ Pass.failuresAt (standard E).criteriaFor ops c := by
    decide
  exact ⟨hfails, ((failure_isolated E).1 ops c 1 (.emptyList "id" "in") hfails).2⟩

end Registry
end Pushdown
