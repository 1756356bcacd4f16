import Pushdown.Proofs.StandardPasses
import Pushdown.Proofs.Lowering

/-!
# Splitting a filter

A filter is taken apart into its conjuncts. Those without closures go into the restriction of the
criteria, the others stay behind as a filter, and no row notices: what the old criteria and the
filter let through together, the new criteria and what is left of the filter let through as well.
-/

namespace Pushdown

variable {ρ : Type}

namespace Predicate

/-- The conjuncts that a query can state. -/
def pushed (p : Predicate ρ) : List (Predicate ρ) := p.conjuncts.filter isPushable

/-- The conjuncts that hold a closure. -/
def kept (p : Predicate ρ) : List (Predicate ρ) := p.conjuncts.filter fun q => !q.isPushable

lemma partition_conjuncts (p : Predicate ρ) :
    p.conjuncts.partition isPushable = (p.pushed, p.kept) :=
  List.partition_eq_filter_filter

lemma test_eq_pushed_and_kept (E : Entity ρ) (row : ρ) (p : Predicate ρ) :
    p.test E row =
      ((p.pushed.all fun q => q.test E row) && p.kept.all fun q => q.test E row) := by
  rw [test_eq_partition E row isPushable, partition_conjuncts]

lemma conjuncts_ofConjuncts_kept {p : Predicate ρ} (h : p.kept ≠ []) :
    (ofConjuncts p.kept).conjuncts = p.kept :=
  conjuncts_ofConjuncts h fun _ hq => ne_all_of_mem_conjuncts p (List.mem_of_mem_filter hq)

end Predicate

namespace Criteria

/-- Does a row satisfy the restriction, if there is one? -/
def admits (E : Entity ρ) (c : Criteria) (row : ρ) : Bool :=
  c.restriction?.all fun r => r.holds E row

/-- The restriction of `c` that `restrict` puts together from the old one and `r`. -/
lemma exists_restrict_eq (E : Entity ρ) (c : Criteria) (r : Restriction)
    (bindings : List Binding) :
    ∃ r', c.restrict r bindings =
        { c with restriction? := some r', parameters := c.parameters ++ bindings } ∧
      ∀ row, r'.holds E row = (c.admits E row && r.holds E row) := by
  refine ⟨_, rfl, fun row => ?_⟩
  cases h : c.restriction? with
  | none => simp [admits, h]
  | some old => simp [admits, h]

end Criteria

namespace Tracker

/-- The books once the filter with the predicate `p` at `i` has gone in. -/
def markSplit (t : Tracker ρ) (E : Entity ρ) (i : Nat) (p : Predicate ρ) : Tracker ρ :=
  let marked :=
    if p.kept.isEmpty then t.markForRemoval i
    else t.replaceWith i (Operation.filter E (Predicate.ofConjuncts p.kept))
  marked.markMerged .filter

variable {t : Tracker ρ} {E : Entity ρ} {i : Nat} {p : Predicate ρ}

lemma isMarkedForRemoval_markSplit (h : p.kept = []) :
    (t.markSplit E i p).isMarkedForRemoval i = true := by
  have hmark : (t.markSplit E i p).marks.find? i = some .absorbed := by
    simp only [markSplit, h, List.isEmpty_nil, if_true]
    exact Entries.find?_insert_self _ _ _
  rw [isMarkedForRemoval, hmark]

lemma find?_markSplit (h : p.kept ≠ []) :
    (t.markSplit E i p).marks.find? i =
      some (.residual (Operation.filter E (Predicate.ofConjuncts p.kept))) := by
  simp only [markSplit, List.isEmpty_eq_false_iff.2 h, Bool.false_eq_true, if_false]
  exact Entries.find?_insert_self _ _ _

end Tracker

namespace Strategy

variable {E : Entity ρ} {i : Nat} {op : Operation ρ} {s : MergeState ρ Criteria} {p : Predicate ρ}

/-- A filter is left alone where it may not or cannot go in. -/
lemma applyFilter_declines (hp : op.predicate? = some p)
    (h : s.target.windowed = true ∨ p.pushed = []) : applyFilter E i op s = (s, none) := by
  unfold applyFilter
  cases hwindowed : s.target.windowed with
  | true => rfl
  | false =>
    have hnone : p.pushed = [] := h.resolve_left (hwindowed ▸ Bool.false_ne_true)
    simp only [hp, Predicate.partition_conjuncts, hnone]
    rfl

lemma applyFilter_takes (hp : op.predicate? = some p) (hwindowed : s.target.windowed = false)
    (hpushed : p.pushed ≠ []) {restrictions : List Restriction} {bindings : List Binding}
    (hlower : Lowering.lowerList E s.target.parameters.length p.pushed =
      .ok (restrictions, bindings)) :
    applyFilter E i op s =
      (⟨s.target.restrict (Restriction.ofConjuncts restrictions) bindings,
        s.tracker.markSplit E i p⟩, none) := by
  have hsome : p.pushed.isEmpty = false := List.isEmpty_eq_false_iff.2 hpushed
  unfold applyFilter
  simp only [hwindowed, hp, Predicate.partition_conjuncts, hsome, hlower]
  rfl

/-- A filter is split into what goes in and what is left of it. The new restriction holds where the
old one and the conjuncts that went in do. With nothing left the filter is to be removed, else a
filter of the conjuncts with closures, in their order, takes its place. Old restriction and filter
together come to the same as the new restriction and the rest, and of the criteria only restriction
and parameters change. Where no conjunct may go in, nothing changes at all. -/
theorem applyFilter_splits (E : Entity ρ) (i : Nat) (op : Operation ρ) (s : MergeState ρ Criteria)
    (p : Predicate ρ) (hp : op.predicate? = some p) :
    (∀ restrictions bindings, s.target.windowed = false → p.pushed ≠ [] →
        Lowering.lowerList E s.target.parameters.length p.pushed = .ok (restrictions, bindings) →
        ∃ s', applyFilter E i op s = (s', none) ∧
          (∃ r, s'.target =
              { s.target with
                restriction? := some r, parameters := s.target.parameters ++ bindings } ∧
            ∀ row, r.holds E row =
              (s.target.admits E row && p.pushed.all fun q => q.test E row)) ∧
          (p.kept = [] → s'.tracker.isMarkedForRemoval i = true ∧
            ∀ row, s'.target.admits E row = (s.target.admits E row && p.test E row)) ∧
          (p.kept ≠ [] → ∃ q,
            s'.tracker.marks.find? i = some (.residual (Operation.filter E q)) ∧
              q.conjuncts = p.kept ∧
              ∀ row, (s'.target.admits E row && q.test E row) =
                (s.target.admits E row && p.test E row))) ∧
      (s.target.windowed = true ∨ p.pushed = [] → applyFilter E i op s = (s, none)) := by
  refine ⟨fun restrictions bindings hwindowed hpushed hlower => ?_, applyFilter_declines hp⟩
  let pushed := Restriction.ofConjuncts restrictions
  have hstates (row : ρ) : pushed.holds E row = p.pushed.all fun q => q.test E row := by
    rw [(Lowering.States.ofConjuncts (Lowering.lowerList_ok _ _ hlower)).holds_eq,
      Predicate.test_ofConjuncts]
  obtain ⟨r, hrestrict, hholds⟩ := s.target.exists_restrict_eq E pushed bindings
  have hadmits (row : ρ) : (s.target.restrict pushed bindings).admits E row =
      (s.target.admits E row && p.pushed.all fun q => q.test E row) := by
    rw [← hstates, ← hholds, hrestrict]
    rfl
  refine ⟨_, applyFilter_takes hp hwindowed hpushed hlower, ⟨r, hrestrict, fun row => ?_⟩,
    fun hkept => ⟨Tracker.isMarkedForRemoval_markSplit hkept, fun row => ?_⟩,
    fun hkept => ⟨_, Tracker.find?_markSplit hkept, Predicate.conjuncts_ofConjuncts_kept hkept,
      fun row => ?_⟩⟩
  · rw [hholds, hstates]
  · rw [hadmits, Predicate.test_eq_pushed_and_kept, hkept, List.all_nil, Bool.and_true]
  · rw [hadmits, Predicate.test_ofConjuncts, Predicate.test_eq_pushed_and_kept, Bool.and_assoc]

theorem applyFilter_splits_records :
    let E := Entity.ofColumns "Person" "id" ["id", "age"]
    let even : Predicate Record := .closure ⟨0, fun r => r.cells.length % 2 == 0⟩
    let adult : Predicate Record := .column ⟨"age", .gte (.int 18)⟩
    let other : Predicate Record := .not (.any [even, adult])
    let p : Predicate Record := .all [.all [even, .all [adult]], .always, other]
    let old : Restriction := .compare ⟨"id", .lt (.int 100)⟩ [":p1"]
    let c := (Criteria.new "Person").restrict old [⟨":p1", .int 100⟩]
    (Operation.filter E p).predicate? = some p ∧ c.windowed = false ∧ p.pushed ≠ [] ∧
      ∃ s', applyFilter E 3 (Operation.filter E p) ⟨c, .new⟩ = (s', none) ∧
        ∃ q, s'.tracker.marks.find? 3 = some (.residual (Operation.filter E q)) ∧
          q.conjuncts = [even, other] ∧
          ∀ row, (s'.target.admits E row && q.test E row) = (c.admits E row && p.test E row) := by
  intro E even adult other p old c
  have hpushed : p.pushed ≠ [] := List.cons_ne_nil _ _
  have hkept : p.kept ≠ [] := List.cons_ne_nil _ _
  obtain ⟨hsplits, -⟩ := applyFilter_splits E 3 (Operation.filter E p) ⟨c, .new⟩ p rfl
  obtain ⟨s', happly, -, -, hresidual⟩ := hsplits _ _ rfl hpushed rfl
  obtain ⟨q, hmark, hconjuncts, hrows⟩ := hresidual hkept
  exact ⟨rfl, rfl, hpushed, s', happly, q, hmark, hconjuncts, hrows⟩

end Strategy
end Pushdown
