import Pushdown.Proofs.Absorption
import Pushdown.Proofs.Conjunctions

/-!
# Passes of the standard registry

The verdicts of the standard strategies, one pass at a time. The criteria pass decides on filters,
sorts and DISTINCT, the query pass on skips and limits, and an operation of another kind stops
either of them.
-/

namespace Pushdown

open Std

instance : LawfulEqOrd Kind where
  compare_self {a} := by
    cases a with
    | custom name =>
      have hself : compare name name = .eq := ReflCmp.compare_self
      exact hself
    | _ => rfl
  eq_of_compare {a b} h := by
    cases a with
    | custom m =>
      cases b with
      | custom n =>
        have hmn : compare m n = .eq := h
        rw [Std.compare_eq_iff_eq.1 hmn]
      | _ => cases h
    | _ =>
      cases b with
      | custom n => cases h
      | _ => first | rfl | cases h

namespace Query

/-- The query with its first `n` rows skipped. -/
def skipping (q : Query) (n : UInt64) : Query :=
  let moved := q.setFirstResult (Count.add q.firstResult n)
  match moved.maxResults? with
  | some most => moved.setMaxResults (Count.sub most n)
  | none => moved

lemma criteria_skipping (q : Query) (n : UInt64) :
    (q.skipping n).criteria = q.criteria.markWindowed := by
  unfold skipping setFirstResult
  cases q.maxResults? <;> rfl

/-- The query with all rows behind the first `n` cut off. -/
def limitedTo (q : Query) (n : UInt64) : Query :=
  q.setMaxResults (match q.maxResults? with | some present => Count.min present n | none => n)

end Query

namespace Criteria

/-- How criteria take in an operation: with the conjuncts of a filter that hold no closure, with the
terms of a sort, or as DISTINCT. -/
inductive Takes {ρ : Type} (E : Entity ρ) (op : Operation ρ) (c : Criteria) : Criteria → Prop
  | restrict {p : Predicate ρ} {restrictions : List Restriction} {bindings : List Binding}
      (hkind : op.kind = .filter) (hp : op.predicate? = some p)
      (hpushable : p.conjuncts.filter Predicate.isPushable ≠ [])
      (hlower : Lowering.lowerList E c.parameters.length
        (p.conjuncts.filter Predicate.isPushable) = .ok (restrictions, bindings)) :
      Takes E op c (c.restrict (Restriction.ofConjuncts restrictions) bindings)
  | prependOrder {terms : List OrderTerm} (hkind : op.kind = .sorted)
      (hterms : Lowering.orderTerms E (op.comparator?.getD .natural) = .ok terms) :
      Takes E op c (c.prependOrder terms)
  | setDistinct (hkind : op.kind = .distinct) : Takes E op c (c.setDistinct true)

end Criteria

namespace Verdict

variable {ρ : Type}

/-- Of a conjunction, `pushable` is absorbed, and `residual` stays behind. -/
def onConjuncts (E : Entity ρ) (c : Criteria) (pushable residual : List (Predicate ρ)) :
    Verdict ρ Criteria :=
  if pushable.isEmpty then declines
  else
    match Lowering.lowerList E c.parameters.length pushable with
    | .error e => fails e
    | .ok (restrictions, bindings) =>
      let target := c.restrict (Restriction.ofConjuncts restrictions) bindings
      if residual.isEmpty then absorbs target
      else divides target (Operation.filter E (Predicate.ofConjuncts residual))

def onFilter (E : Entity ρ) (op : Operation ρ) (c : Criteria) : Verdict ρ Criteria :=
  match c.windowed, op.predicate? with
  | false, some p =>
    let parts := p.conjuncts.partition Predicate.isPushable
    onConjuncts E c parts.1 parts.2
  | _, _ => declines

def onSort (E : Entity ρ) (op : Operation ρ) (c : Criteria) : Verdict ρ Criteria :=
  let comparator := op.comparator?.getD .natural
  if c.windowed || !comparator.isPushable then declines
  else
    match Lowering.orderTerms E comparator with
    | .error e => fails e
    | .ok terms => absorbs (c.prependOrder terms)

def onDistinct (op : Operation ρ) (c : Criteria) : Verdict ρ Criteria :=
  if c.windowed || !op.arguments.isEmpty then declines else absorbs (c.setDistinct true)

def onSkip (op : Operation ρ) (q : Query) : Verdict ρ Query :=
  match op.count? with
  | some n => absorbs (q.skipping n)
  | none => declines

def onLimit (op : Operation ρ) (q : Query) : Verdict ρ Query :=
  match op.count? with
  | some n => absorbs (q.limitedTo n)
  | none => declines

def onCriteria (E : Entity ρ) (op : Operation ρ) (c : Criteria) : Verdict ρ Criteria :=
  match op.kind with
  | .filter => onFilter E op c
  | .sorted => onSort E op c
  | .distinct => onDistinct op c
  | _ => declines

def onQuery (op : Operation ρ) (q : Query) : Verdict ρ Query :=
  match op.kind with
  | .skip => onSkip op q
  | .limit => onLimit op q
  | _ => declines

/-- Criteria take in the filter `op` with the conjuncts that hold no closure. -/
lemma takes_of_onConjuncts {E : Entity ρ} {op : Operation ρ} {p : Predicate ρ} {c c' : Criteria}
    (hkind : op.kind = .filter) (hp : op.predicate? = some p) {others : List (Predicate ρ)}
    (h : (onConjuncts E c (p.conjuncts.filter Predicate.isPushable) others).target? = some c') :
    c.Takes E op c' := by
  unfold onConjuncts at h
  split at h
  · cases h
  · rename_i hpushable
    split at h
    · cases h
    · rename_i restrictions bindings hlower
      have hc' : c.restrict (Restriction.ofConjuncts restrictions) bindings = c' := by
        simp only at h
        split at h <;> exact Option.some.inj h
      rw [← hc']
      exact .restrict hkind hp (fun hnone => hpushable (List.isEmpty_iff.2 hnone)) hlower

/-- An operation goes into the criteria only if no window lies over them. -/
lemma takes_of_onCriteria {E : Entity ρ} {op : Operation ρ} {c c' : Criteria}
    (h : (onCriteria E op c).target? = some c') : c.windowed = false ∧ c.Takes E op c' := by
  unfold onCriteria at h
  split at h
  · rename_i hkind
    unfold onFilter at h
    split at h
    · rename_i p hwindowed hp
      rw [List.partition_eq_filter_filter] at h
      exact ⟨hwindowed, takes_of_onConjuncts hkind hp h⟩
    · cases h
  · rename_i hkind
    unfold onSort at h
    simp only at h
    split at h
    · cases h
    · rename_i hstops
      split at h
      · cases h
      · rename_i terms hterms
        obtain rfl := Option.some.inj h
        rw [Bool.or_eq_true, not_or, Bool.not_eq_true] at hstops
        exact ⟨hstops.1, .prependOrder hkind hterms⟩
  · rename_i hkind
    unfold onDistinct at h
    split at h
    · cases h
    · rename_i hstops
      obtain rfl := Option.some.inj h
      rw [Bool.or_eq_true, not_or, Bool.not_eq_true] at hstops
      exact ⟨hstops.1, .setDistinct hkind⟩
  · cases h

lemma onConjuncts_select (E : Entity ρ) (selection : Selection) (c : Criteria)
    (pushable others : List (Predicate ρ)) :
    onConjuncts E (c.select selection) pushable others =
      (onConjuncts E c pushable others).map (·.select selection) := by
  have hparameters : (c.select selection).parameters = c.parameters := rfl
  simp only [onConjuncts, hparameters]
  cases pushable.isEmpty with
  | true => rfl
  | false =>
    cases Lowering.lowerList E c.parameters.length pushable with
    | error e => rfl
    | ok lowered => cases others.isEmpty <;> rfl

/-- What is selected of the rows plays no part in a verdict. -/
lemma onCriteria_select (E : Entity ρ) (selection : Selection) (op : Operation ρ) (c : Criteria) :
    onCriteria E op (c.select selection) = (onCriteria E op c).map (·.select selection) := by
  have hwindowed : (c.select selection).windowed = c.windowed := rfl
  unfold onCriteria
  cases op.kind with
  | filter =>
    simp only [onFilter, hwindowed]
    cases c.windowed with
    | true => rfl
    | false =>
      cases op.predicate? with
      | none => rfl
      | some p => exact onConjuncts_select E selection c _ _
  | sorted =>
    simp only [onSort, hwindowed]
    cases c.windowed || !(op.comparator?.getD .natural).isPushable with
    | true => rfl
    | false => cases Lowering.orderTerms E (op.comparator?.getD .natural) <;> rfl
  | distinct =>
    simp only [onDistinct, hwindowed]
    cases c.windowed || !op.arguments.isEmpty <;> rfl
  | _ => rfl

lemma residual_of_onConjuncts {E : Entity ρ} {c c' : Criteria}
    {pushable others : List (Predicate ρ)} {residual : Operation ρ}
    (h : onConjuncts E c pushable others = divides c' residual) :
    residual = Operation.filter E (Predicate.ofConjuncts others) ∧ others ≠ [] := by
  unfold onConjuncts at h
  split at h
  · cases h
  · split at h
    · cases h
    · simp only at h
      split at h
      · cases h
      · rename_i hothers
        cases h
        exact ⟨rfl, fun hnone => hothers (List.isEmpty_iff.2 hnone)⟩

/-- Only filters are divided, and what is left of one are its conjuncts with closures. -/
lemma residual_of_onCriteria {E : Entity ρ} {op residual : Operation ρ} {c c' : Criteria}
    (h : onCriteria E op c = divides c' residual) :
    op.kind = .filter ∧ ∃ ps, residual = Operation.filter E (Predicate.ofConjuncts ps) ∧ ps ≠ [] ∧
      ∀ p ∈ ps, p.isPushable = false ∧ ∀ qs, p ≠ .all qs := by
  unfold onCriteria at h
  split at h
  · rename_i hkind
    unfold onFilter at h
    split at h
    · rename_i p hwindowed hp
      rw [List.partition_eq_filter_filter] at h
      obtain ⟨hresidual, hothers⟩ := residual_of_onConjuncts h
      refine ⟨hkind, _, hresidual, hothers, fun q hq => ?_⟩
      obtain ⟨hmem, hclosures⟩ := List.mem_filter.1 hq
      refine ⟨?_, Predicate.ne_all_of_mem_conjuncts p hmem⟩
      simpa using hclosures
    · cases h
  · unfold onSort at h
    simp only at h
    split at h
    · cases h
    · split at h <;> cases h
  · unfold onDistinct at h
    split at h <;> cases h
  · cases h

/-- What is left of a divided filter goes in no further. -/
lemma onCriteria_residual {E : Entity ρ} {op residual : Operation ρ} {c c' : Criteria}
    (h : onCriteria E op c = divides c' residual) (d : Criteria) :
    onCriteria E residual d = declines := by
  obtain ⟨-, ps, rfl, hps, hclosures⟩ := residual_of_onCriteria h
  have hconjuncts : (Predicate.ofConjuncts ps).conjuncts = ps :=
    Predicate.conjuncts_ofConjuncts hps fun p hp => (hclosures p hp).2
  have hnone : ps.filter Predicate.isPushable = [] :=
    List.filter_eq_nil_iff.2 fun p hp => by simp [(hclosures p hp).1]
  change onFilter E (Operation.filter E (Predicate.ofConjuncts ps)) d = declines
  unfold onFilter
  split
  · rename_i p hwindowed hp
    obtain rfl : Predicate.ofConjuncts ps = p := Option.some.inj hp
    rw [hconjuncts, List.partition_eq_filter_filter, hnone]
    rfl
  · rfl

/-- An operation that goes into a query is a skip or a limit, and lays a window over the
criteria. -/
lemma criteria_of_onQuery {op : Operation ρ} {q q' : Query}
    (h : (onQuery op q).target? = some q') :
    (op.kind = .skip ∨ op.kind = .limit) ∧ q'.criteria = q.criteria.markWindowed := by
  unfold onQuery onSkip onLimit at h
  split at h
  · rename_i hkind
    split at h
    · obtain rfl := Option.some.inj h
      exact ⟨Or.inl hkind, Query.criteria_skipping q _⟩
    · cases h
  · rename_i hkind
    split at h
    · obtain rfl := Option.some.inj h
      exact ⟨Or.inr hkind, rfl⟩
    · cases h
  · cases h

lemma onQuery_ne_divides {op residual : Operation ρ} {q q' : Query} :
    onQuery op q ≠ divides q' residual := by
  intro h
  unfold onQuery onSkip onLimit at h
  split at h
  · split at h <;> cases h
  · split at h <;> cases h
  · cases h

lemma onQuery_ne_fails {op : Operation ρ} {q : Query} {e : LoweringError} :
    onQuery op q ≠ fails e := by
  intro h
  unfold onQuery onSkip onLimit at h
  split at h
  · split at h <;> cases h
  · split at h <;> cases h
  · cases h

end Verdict

namespace Pass

variable {ρ σ : Type}

lemma tryEach_singleton (i : Nat) (op : Operation ρ) (strategy : Strategy ρ σ)
    (s : MergeState ρ σ) : tryEach i op [strategy] s = strategy.apply i op s := by
  rw [tryEach]
  split
  · rename_i s' e h
    rw [h]
  · rename_i s' h
    rw [h, tryEach, ite_self]

end Pass

namespace Registry

variable {ρ : Type} (E : Entity ρ)

lemma criteriaFor_standard (kind : Kind) :
    (standard E).criteriaFor kind =
      match kind with
      | .filter => [.pushFilter E]
      | .sorted => [.pushSort E]
      | .distinct => [.pushDistinct]
      | _ => [] := by
  cases kind <;> rfl

lemma queryFor_standard (kind : Kind) :
    (standard E).queryFor kind =
      match kind with
      | .skip => [.pushSkip]
      | .limit => [.pushLimit]
      | _ => [] := by
  cases kind <;> rfl

/-- If the criteria pass has merged a DISTINCT, the criteria are distinct. -/
def MarksDistinct (s : MergeState ρ Criteria) : Prop :=
  s.tracker.wasMerged .distinct = true → s.target.distinct = true

lemma wasMerged_markMerged_of_ne (t : Tracker ρ) {kind other : Kind} (h : other ≠ kind) :
    (t.markMerged kind).wasMerged other = t.wasMerged other := by
  unfold Tracker.wasMerged Tracker.markMerged Entries.contains
  rw [Entries.find?_insert_of_ne _ h]

lemma applyFilter_settles (i : Nat) (op : Operation ρ) {s : MergeState ρ Criteria}
    (hs : MarksDistinct s) :
    (Verdict.onFilter E op s.target).Settles i s (Strategy.applyFilter E i op s) ∧
      MarksDistinct (Strategy.applyFilter E i op s).1 := by
  unfold Verdict.onFilter Strategy.applyFilter
  cases s.target.windowed with
  | true => exact ⟨rfl, hs⟩
  | false =>
    cases op.predicate? with
    | none => exact ⟨rfl, hs⟩
    | some p =>
      simp only [Verdict.onConjuncts]
      generalize p.conjuncts.partition Predicate.isPushable = parts
      by_cases hpushable : parts.1.isEmpty = true
      · rw [if_pos hpushable, if_pos hpushable]
        exact ⟨rfl, hs⟩
      · rw [if_neg hpushable, if_neg hpushable]
        cases Lowering.lowerList E s.target.parameters.length parts.1 with
        | error e => exact ⟨rfl, hs⟩
        | ok lowered =>
          have hkinds (t : Tracker ρ) (ht : t.wasMerged .distinct = s.tracker.wasMerged .distinct)
              (h : (t.markMerged .filter).wasMerged .distinct = true) :
              s.target.distinct = true := by
            rw [wasMerged_markMerged_of_ne _ (by decide), ht] at h
            exact hs h
          by_cases hresidual : parts.2.isEmpty = true
          · simp only [if_pos hresidual]
            exact ⟨⟨_, rfl⟩, hkinds _ rfl⟩
          · simp only [if_neg hresidual]
            exact ⟨⟨_, rfl⟩, hkinds _ rfl⟩

lemma applySort_settles (i : Nat) (op : Operation ρ) {s : MergeState ρ Criteria}
    (hs : MarksDistinct s) :
    (Verdict.onSort E op s.target).Settles i s (Strategy.applySort E i op s) ∧
      MarksDistinct (Strategy.applySort E i op s).1 := by
  unfold Verdict.onSort Strategy.applySort
  simp only
  split
  · exact ⟨rfl, hs⟩
  · cases Lowering.orderTerms E (op.comparator?.getD .natural) with
    | error e => exact ⟨rfl, hs⟩
    | ok terms =>
      refine ⟨⟨_, rfl⟩, fun h => hs ?_⟩
      rwa [wasMerged_markMerged_of_ne _ (by decide)] at h

lemma applyDistinct_settles (i : Nat) (op : Operation ρ) {s : MergeState ρ Criteria}
    (hs : MarksDistinct s) :
    (Verdict.onDistinct op s.target).Settles i s (Strategy.applyDistinct i op s) ∧
      MarksDistinct (Strategy.applyDistinct i op s).1 := by
  unfold Verdict.onDistinct Strategy.applyDistinct
  split
  · exact ⟨rfl, hs⟩
  · by_cases hmerged : s.tracker.wasMerged .distinct = true
    · have hdistinct : s.target.setDistinct true = s.target := by
        rw [Criteria.setDistinct, ← hs hmerged]
      rw [if_pos hmerged, hdistinct]
      exact ⟨⟨_, rfl⟩, hs⟩
    · rw [if_neg hmerged]
      exact ⟨⟨_, rfl⟩, fun _ => rfl⟩

lemma criteria_follows :
    Pass.Follows (standard E).criteriaFor (Verdict.onCriteria E) MarksDistinct := by
  intro i op s hs
  rw [criteriaFor_standard]
  unfold Verdict.onCriteria
  cases op.kind with
  | filter =>
    simp only [Pass.tryEach_singleton]
    exact applyFilter_settles E i op hs
  | sorted =>
    simp only [Pass.tryEach_singleton]
    exact applySort_settles E i op hs
  | distinct =>
    simp only [Pass.tryEach_singleton]
    exact applyDistinct_settles i op hs
  | _ => exact ⟨rfl, hs⟩

lemma query_follows :
    Pass.Follows (standard E).queryFor Verdict.onQuery fun _ => True := by
  intro i op s _
  refine ⟨?_, trivial⟩
  rw [queryFor_standard]
  unfold Verdict.onQuery
  cases op.kind with
  | skip =>
    simp only [Pass.tryEach_singleton, Strategy.pushSkip, Strategy.applySkip, Verdict.onSkip]
    cases op.count? with
    | none => rfl
    | some n => exact ⟨_, rfl⟩
  | limit =>
    simp only [Pass.tryEach_singleton, Strategy.pushLimit, Strategy.applyLimit, Verdict.onLimit]
    cases op.count? with
    | none => rfl
    | some n => exact ⟨_, rfl⟩
  | _ => rfl

/-- What the criteria pass absorbs. -/
def absorbCriteria (ops : List (Operation ρ)) (c : Criteria) : Absorption ρ Criteria :=
  .absorb (Verdict.onCriteria E) ops c

/-- What the query pass absorbs. -/
def absorbQuery (ops : List (Operation ρ)) (q : Query) : Absorption ρ Query :=
  .absorb Verdict.onQuery ops q

/-- The criteria pass does the same under any selection, and keeps it. -/
lemma absorbCriteria_select (ops : List (Operation ρ)) (c : Criteria) (selection : Selection) :
    absorbCriteria E ops (c.select selection) =
      { absorbCriteria E ops c with
        target := (absorbCriteria E ops c).target.select selection } :=
  Absorption.absorb_map (Verdict.onCriteria_select E selection) ops c

lemma selection_absorbCriteria (ops : List (Operation ρ)) (c : Criteria) :
    (absorbCriteria E ops c).target.selection = c.selection :=
  congrArg (fun a => a.target.selection) (absorbCriteria_select E ops c c.selection)

lemma mem_left_absorbCriteria {ops : List (Operation ρ)} {c : Criteria} :
    ∀ op ∈ (absorbCriteria E ops c).left, op ∈ ops ∨ ∃ p, op = .filter E p := by
  refine Absorption.mem_left fun op target target' residual h => ?_
  obtain ⟨-, ps, hresidual, -⟩ := Verdict.residual_of_onCriteria h
  exact ⟨Predicate.ofConjuncts ps, hresidual⟩

lemma mem_left_absorbQuery {ops : List (Operation ρ)} {q : Query} :
    ∀ op ∈ (absorbQuery ops q).left, op ∈ ops := by
  intro op hop
  have hleft := Absorption.mem_left (P := fun _ => False)
    (fun _ _ _ _ => Verdict.onQuery_ne_divides) op hop
  simpa using hleft

theorem mergeCriteria_standard (ops : List (Operation ρ)) (c : Criteria) :
    let a := absorbCriteria E ops c
    let p := (standard E).mergeCriteria ops c
    p.operations = a.left ∧ p.target = a.target ∧ p.outcome.removed = a.absorbed ∧
      p.outcome.replaced = a.residual?.toList.length ∧
      p.outcome.failures = a.failure?.toList :=
  Pass.run_eq (criteria_follows E) ops nofun

theorem mergeQuery_standard (ops : List (Operation ρ)) (q : Query) :
    let a := absorbQuery ops q
    let p := (standard E).mergeQuery ops q
    p.operations = a.left ∧ p.target = a.target ∧ p.outcome.removed = a.absorbed ∧
      p.outcome.replaced = a.residual?.toList.length ∧
      p.outcome.failures = a.failure?.toList :=
  Pass.run_eq (query_follows E) ops trivial

/-- The query pass works on what the criteria pass leaves. -/
theorem merge_standard (ops : List (Operation ρ)) (q : Query) :
    let a := absorbCriteria E ops q.criteria
    let b := absorbQuery a.left { q with criteria := a.target }
    let p := (standard E).merge ops q
    p.operations = b.left ∧ p.target = b.target ∧
      p.outcome.removed = a.absorbed + b.absorbed ∧
      p.outcome.replaced = a.residual?.toList.length + b.residual?.toList.length := by
  intro a b p
  obtain ⟨hoperations, htarget, hremoved, hreplaced, -⟩ := mergeCriteria_standard E ops q.criteria
  obtain ⟨hoperations', htarget', hremoved', hreplaced', -⟩ :=
    mergeQuery_standard E a.left { q with criteria := a.target }
  simp only [p, merge, MergeOutcome.followedBy, hoperations, htarget, hremoved, hreplaced]
  exact ⟨hoperations', htarget', congrArg _ hremoved', congrArg _ hreplaced'⟩

/-- Each operation is absorbed, or one is left for it. -/
lemma length_merge (ops : List (Operation ρ)) (q : Query) :
    let p := (standard E).merge ops q
    p.operations.length + p.outcome.removed = ops.length := by
  intro p
  let a := absorbCriteria E ops q.criteria
  let b := absorbQuery a.left { q with criteria := a.target }
  obtain ⟨hoperations, -, hremoved, -⟩ := merge_standard E ops q
  have hfirst : a.left.length + a.absorbed = ops.length := Absorption.length_left _ _ _
  have hsecond : b.left.length + b.absorbed = a.left.length := Absorption.length_left _ _ _
  calc p.operations.length + p.outcome.removed
      = b.left.length + (a.absorbed + b.absorbed) := by rw [← hremoved, ← hoperations]
    _ = ops.length := by omega

/-- What holds of the query at first, and still holds after each operation that goes in, holds of
the query in the end. The operations that went in stand at the front. -/
lemma merge_induction {Q : List (Operation ρ) → Query → Prop}
    (hcriteria : ∀ before op q c, Q before q →
      (Verdict.onCriteria E op q.criteria).target? = some c →
      Q (before ++ [op]) { q with criteria := c })
    (hquery : ∀ before op q q', Q before q → (Verdict.onQuery op q).target? = some q' →
      Q (before ++ [op]) q')
    (ops : List (Operation ρ)) {q : Query} (hq : Q [] q) :
    let p := (standard E).merge ops q
    Q (ops.take (p.outcome.removed + p.outcome.replaced)) p.target := by
  intro p
  let a := absorbCriteria E ops q.criteria
  let q' : Query := { q with criteria := a.target }
  let b := absorbQuery a.left q'
  obtain ⟨-, htarget, hremoved, hreplaced⟩ := merge_standard E ops q
  have hfirst : ∃ front, ops = front ++ a.rest ∧ Q front q' ∧
      front.length = a.absorbed + a.residual?.toList.length :=
    Absorption.absorb_induction (Q := fun before c => Q before { q with criteria := c })
      (fun before op c c' h hc' => hcriteria before op { q with criteria := c } c' h hc') ops hq
  obtain ⟨front, hops, hfirst, hlength⟩ := hfirst
  have hsecond : ∃ front', a.left = front' ++ b.rest ∧ Q (front ++ front') b.target ∧
      front'.length = b.absorbed + b.residual?.toList.length :=
    Absorption.absorb_induction (Q := fun before => Q (front ++ before))
      (fun before op q q' h hq' => List.append_assoc front before [op] ▸ hquery _ op q q' h hq')
      a.left (show Q (front ++ []) q' by rwa [List.append_nil])
  obtain ⟨front', hleft, hsecond, hlength'⟩ := hsecond
  -- a residual is a filter, and stands in the way of the query pass
  have hrest : ∃ rest, ops = front ++ front' ++ rest := by
    cases hdivided : a.residual? with
    | none =>
      have hwhole : a.left = a.rest := by rw [Absorption.left, hdivided]; rfl
      refine ⟨b.rest, ?_⟩
      rw [hops, ← hwhole, hleft, List.append_assoc]
    | some residual =>
      obtain ⟨op, c, c', hdivides⟩ := Absorption.exists_divides_of_residual hdivided
      obtain ⟨-, ps, rfl, -⟩ := Verdict.residual_of_onCriteria hdivides
      have hhalts : Absorption.Halts Verdict.onQuery a.left q' := by
        rw [Absorption.left, hdivided]
        rfl
      obtain ⟨hidle, hwhole⟩ := Absorption.halts_iff.1 hhalts
      change b.absorbed = 0 at hidle
      change b.residual? = none at hwhole
      rw [hidle, hwhole] at hlength'
      refine ⟨a.rest, ?_⟩
      rw [List.eq_nil_of_length_eq_zero hlength', List.append_nil]
      exact hops
  have hcount : p.outcome.removed + p.outcome.replaced = (front ++ front').length := by
    change p.outcome.removed = a.absorbed + b.absorbed at hremoved
    change p.outcome.replaced = a.residual?.toList.length + b.residual?.toList.length at hreplaced
    rw [List.length_append, hlength, hlength', hremoved, hreplaced]
    omega
  obtain ⟨rest, hrest⟩ := hrest
  rw [hcount, show p.target = b.target from htarget, hrest, List.take_left]
  exact hsecond

end Registry
end Pushdown
