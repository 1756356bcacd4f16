import Pushdown.Proofs.StandardPasses

/-!
# Repeated merges

A merge goes on until nothing more goes in. The window that the query pass lays over the criteria
does not change that, so another merge of what is left has nothing to do. And if a merge leaves
nothing, it may be cut in two anywhere: merging the rest afterwards comes to the same.
-/

namespace Pushdown

open Absorption

variable {ρ : Type}

namespace Verdict

/-- No operation goes into criteria under a window. -/
lemma onCriteria_windowed (E : Entity ρ) (op : Operation ρ) {c : Criteria}
    (h : c.windowed = true) : (onCriteria E op c).target? = none := by
  apply Option.eq_none_iff_forall_ne_some.2
  intro c' hgoes
  have hopen := (takes_of_onCriteria hgoes).1
  rw [h] at hopen
  cases hopen

end Verdict

namespace Registry

/-- The query pass changes nothing, or it leaves a window. -/
lemma absorbQuery_cases (ops : List (Operation ρ)) (q : Query) :
    Halts Verdict.onQuery ops q ∨ (absorbQuery ops q).target.criteria.windowed = true := by
  have hstep : ∀ (before : List (Operation ρ)) (op : Operation ρ) (q q' : Query),
      (before ≠ [] → q.criteria.windowed = true) → (Verdict.onQuery op q).target? = some q' →
      before ++ [op] ≠ [] → q'.criteria.windowed = true := by
    intro _ op q q' _ h _
    rw [(Verdict.criteria_of_onQuery h).2]
    rfl
  have hnone : ([] : List (Operation ρ)) ≠ [] → q.criteria.windowed = true := nofun
  obtain ⟨front, -, hwindowed, hlength⟩ := absorb_induction
    (Q := fun before (q : Query) => before ≠ [] → q.criteria.windowed = true) hstep ops hnone
  by_cases hfront : front = []
  · rw [hfront, List.length_nil] at hlength
    refine Or.inl (halts_iff.2 ⟨by omega, ?_⟩)
    rw [← Option.toList_eq_nil_iff, ← List.length_eq_zero_iff]
    omega
  · exact Or.inr (hwindowed hfront)

variable (E : Entity ρ) {ops : List (Operation ρ)} {q : Query}

/-- A merge halts in both passes on what it leaves. -/
lemma halts_merge (ops : List (Operation ρ)) (q : Query) :
    let p := (standard E).merge ops q
    Halts (Verdict.onCriteria E) p.operations p.target.criteria ∧
      Halts Verdict.onQuery p.operations p.target := by
  intro p
  obtain ⟨hoperations, htarget, -⟩ := merge_standard E ops q
  let a := absorbCriteria E ops q.criteria
  let q' : Query := { q with criteria := a.target }
  have hcriteria : Halts (Verdict.onCriteria E) a.left a.target :=
    halts_absorb fun op c c' residual h => by rw [Verdict.onCriteria_residual h c']; rfl
  simp only [p, hoperations, htarget]
  refine ⟨?_, halts_absorb fun _ _ _ _ h => absurd h Verdict.onQuery_ne_divides⟩
  rcases absorbQuery_cases a.left q' with hhalts | hwindowed
  · obtain ⟨hleft, htarget'⟩ := hhalts.unchanged
    change Halts _ (absorbQuery a.left q').left (absorbQuery a.left q').target.criteria
    rw [absorbQuery, hleft, htarget']
    exact hcriteria
  · cases (absorbQuery a.left q').left with
    | nil => trivial
    | cons op ops => exact Verdict.onCriteria_windowed E op hwindowed

/-- A merge that halts at once in both passes changes nothing. -/
lemma merge_of_halts (hcriteria : Halts (Verdict.onCriteria E) ops q.criteria)
    (hquery : Halts Verdict.onQuery ops q) :
    let p := (standard E).merge ops q
    p.outcome.removed = 0 ∧ p.outcome.replaced = 0 ∧ p.target = q ∧ p.operations = ops := by
  intro p
  obtain ⟨hoperations, htarget, hremoved, hreplaced⟩ := merge_standard E ops q
  obtain ⟨habsorbed, hresidual⟩ := halts_iff.1 hcriteria
  obtain ⟨habsorbed', hresidual'⟩ := halts_iff.1 hquery
  obtain ⟨hleft, hcriteria'⟩ := hcriteria.unchanged
  obtain ⟨hleft', hquery'⟩ := hquery.unchanged
  simp only [absorbCriteria, absorbQuery, hleft, hcriteria', habsorbed, hresidual, hleft', hquery',
    habsorbed', hresidual'] at hoperations htarget hremoved hreplaced
  exact ⟨hremoved, hreplaced, htarget, hoperations⟩

/-- Merging what a merge has left does nothing, whatever was merged into which query. -/
theorem merge_merge (ops : List (Operation ρ)) (q : Query) :
    let first := (standard E).merge ops q
    let second := (standard E).merge first.operations first.target
    second.outcome.removed = 0 ∧ second.outcome.replaced = 0 ∧ second.target = first.target ∧
      second.operations = first.operations := by
  intro first second
  obtain ⟨hcriteria, hquery⟩ := halts_merge E ops q
  exact merge_of_halts E hcriteria hquery

/-- A merge that takes all of its operations in leaves a query on which a merge of further
operations comes to what one merge of both comes to. -/
theorem merge_append_of_absorbed (front rest : List (Operation ρ)) (q : Query)
    (h : ((standard E).merge front q).operations = []) :
    let first := (standard E).merge front q
    let second := (standard E).merge rest first.target
    let whole := (standard E).merge (front ++ rest) q
    second.target = whole.target ∧ second.operations = whole.operations := by
  intro first second whole
  let a := absorbCriteria E front q.criteria
  let q' : Query := { q with criteria := a.target }
  let b := absorbQuery a.left q'
  obtain ⟨hoperations, htarget, -⟩ := merge_standard E front q
  obtain ⟨hoperations₂, htarget₂, -⟩ := merge_standard E rest b.target
  obtain ⟨hoperations', htarget', -⟩ := merge_standard E (front ++ rest) q
  have hall : b.left = [] := hoperations.symm.trans h
  have hquery := absorb_append_of_left_eq_nil hall rest
  have hsecond : second = (standard E).merge rest b.target :=
    congrArg ((standard E).merge rest) htarget
  rw [hsecond]
  by_cases hleft : a.left = []
  · -- the window is still to come, so the criteria pass of the whole goes on in `rest`
    have hcriteria := absorb_append_of_left_eq_nil hleft rest
    have hb : b.target = q' := by
      simp only [b, hleft]
      rfl
    rw [absorbCriteria, hcriteria] at hoperations' htarget'
    rw [hb] at hoperations₂ htarget₂ ⊢
    exact ⟨htarget₂.trans htarget'.symm, hoperations₂.trans hoperations'.symm⟩
  · -- the criteria pass stops in `front`, and the window that is then laid stops it before `rest`
    have hcriteria := absorb_append_of_left_ne_nil hleft rest
    have hwindowed : b.target.criteria.windowed = true := by
      refine (absorbQuery_cases a.left q').resolve_left fun hhalts => ?_
      exact hleft (hhalts.unchanged.1.symm.trans hall)
    have hhalts : Halts (Verdict.onCriteria E) rest b.target.criteria := by
      cases rest with
      | nil => trivial
      | cons op rest => exact Verdict.onCriteria_windowed E op hwindowed
    obtain ⟨hidle, hsame⟩ := hhalts.unchanged
    have hbehind : (absorbCriteria E (front ++ rest) q.criteria).left = a.left ++ rest := by
      rw [absorbCriteria, hcriteria]
      simp [left, a, absorbCriteria]
    have htarget₁ : (absorbCriteria E (front ++ rest) q.criteria).target = a.target := by
      rw [absorbCriteria, hcriteria]
      rfl
    rw [hbehind, htarget₁, absorbQuery, hquery] at hoperations' htarget'
    rw [absorbCriteria, hidle, hsame] at hoperations₂ htarget₂
    exact ⟨htarget₂.trans htarget'.symm, hoperations₂.trans hoperations'.symm⟩

theorem merge_append_of_absorbed_records :
    let E := Entity.ofColumns "User" "id" ["id", "name"]
    let even : Predicate Record := .closure ⟨1, fun row => row.cells.length % 2 == 0⟩
    let front := [.distinct E, .filter E (.column ⟨"id", .gt (.int 1)⟩), .sorted E]
    let rest := [.sortedBy E (.column "name" .descending), .distinct E,
      .filter E ((Predicate.column ⟨"name", .ne (.text "A")⟩).and even), .limit 3]
    let q := (Query.ofCriteria (Criteria.new "User")).setHint "timeout" (.int 5)
    let first := (standard E).merge front q
    let second := (standard E).merge rest first.target
    let whole := (standard E).merge (front ++ rest) q
    first.operations = [] ∧ second.target = whole.target ∧
      second.operations = whole.operations := by
  intro E even front rest q first second whole
  have h : first.operations = [] := List.eq_nil_of_length_eq_zero (by decide)
  exact ⟨h, merge_append_of_absorbed E front rest q h⟩

end Registry
end Pushdown
