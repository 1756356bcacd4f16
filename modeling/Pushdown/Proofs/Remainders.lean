import Pushdown.Proofs.StandardPasses
import Pushdown.Proofs.Terminals

/-!
# What passes leave

Optimization and the merge passes leave the operations that cannot be replayed as they are: no pass
drops such an operation, fuses it or pushes it down. What a merge leaves are the operations behind
those that it absorbs, and the closures of a filter that it absorbs in part.
-/

namespace Pushdown

variable {ρ : Type}

namespace Operation

/-- The operations that replay cannot carry out. -/
def unreplayable (ops : List (Operation ρ)) : List (Operation ρ) :=
  ops.filter fun op => op.transform.isNone

@[simp] lemma mem_unreplayable {op : Operation ρ} {ops : List (Operation ρ)} :
    op ∈ unreplayable ops ↔ op ∈ ops ∧ op.transform = none := by
  rw [unreplayable, List.mem_filter, Option.isNone_iff_eq_none]

lemma unreplayable_append (ops more : List (Operation ρ)) :
    unreplayable (ops ++ more) = unreplayable ops ++ unreplayable more :=
  List.filter_append ..

lemma unreplayable_cons (op : Operation ρ) (ops : List (Operation ρ)) :
    unreplayable (op :: ops) = unreplayable [op] ++ unreplayable ops :=
  unreplayable_append [op] ops

lemma unreplayable_cons_of_ne {op : Operation ρ} (h : op.transform ≠ none)
    (ops : List (Operation ρ)) : unreplayable (op :: ops) = unreplayable ops :=
  List.filter_cons_of_neg (by simpa using h)

/-- Replay stops at the first operation that it cannot carry out. -/
lemma composed_eq_error_iff {ops : List (Operation ρ)} {op : Operation ρ} :
    composed ops = .error op ↔ (unreplayable ops).head? = some op := by
  induction ops with
  | nil => exact iff_of_false (fun h => by cases h) (fun h => by cases h)
  | cons op' ops ih =>
    rw [composed]
    cases htransform : op'.transform with
    | none =>
      rw [unreplayable, List.filter_cons_of_pos (by simp [htransform]), List.head?_cons]
      exact ⟨fun h => congrArg some (Except.error.inj h),
        fun h => congrArg Except.error (Option.some.inj h)⟩
    | some t =>
      rw [unreplayable_cons_of_ne (by simp [htransform]), ← ih]
      cases composed ops with
      | error op'' => exact Iff.rfl
      | ok later => exact iff_of_false (fun h => by cases h) (fun h => by cases h)

lemma composed_eq_ok_iff {ops : List (Operation ρ)} :
    (∃ t, composed ops = .ok t) ↔ unreplayable ops = [] := by
  rw [← List.head?_eq_none_iff]
  cases h : composed ops with
  | error op =>
    rw [composed_eq_error_iff.1 h]
    exact iff_of_false nofun nofun
  | ok t =>
    refine iff_of_true ⟨t, rfl⟩ (Option.eq_none_iff_forall_ne_some.2 fun op hop => ?_)
    rw [composed_eq_error_iff.2 hop] at h
    cases h

end Operation

namespace Fusion

variable {ν : Type}

/-- Operations that take no part in a fusion, and are not built by it, stay as they are. -/
lemma filter_squash {f : Fusion ρ ν} {P : Operation ρ → Bool} (hbuild : ∀ v, P (f.build v) = false)
    {ops : List (Operation ρ)} (hops : ∀ op ∈ ops, P op = true → f.part? op = none) :
    (f.squash ops).filter P = ops.filter P := by
  have hflush (v : ν) (done : List (Operation ρ)) : (f.flush v done).filter P = done.filter P := by
    cases hn : f.isNeutral v with
    | true => rw [flush_of_neutral hn]
    | false => rw [flush_of_not_neutral hn, List.filter_cons_of_neg (by simp [hbuild])]
  have hscan : (f.scan ops).2.filter P = ops.filter P := by
    induction ops with
    | nil => rfl
    | cons op ops ih =>
      obtain ⟨hop, hops⟩ := List.forall_mem_cons.1 hops
      have hdone := ih hops
      rw [scan]
      cases hv : f.part? op with
      | some v =>
        have hP : ¬P op = true := fun hP => by
          rw [hop hP] at hv
          cases hv
        rw [List.filter_cons_of_neg hP]
        exact hdone
      | none =>
        simp only [List.filter_cons, hflush, hdone]
  rw [squash, hflush, hscan]

end Fusion

namespace Operation

variable {E : Entity ρ} {ops : List (Operation ρ)}

lemma unreplayable_squash {ν : Type} {f : Fusion ρ ν}
    (hbuild : ∀ v, (f.build v).transform.isNone = false) (hkind : ∀ name, f.kind ≠ .custom name)
    (hops : ∀ op ∈ unreplayable ops, op.IsCustom) :
    unreplayable (f.squash ops) = unreplayable ops := by
  refine Fusion.filter_squash hbuild fun op hop htransform => ?_
  obtain ⟨name, hname⟩ := hops op (List.mem_filter.2 ⟨hop, htransform⟩)
  rw [Fusion.part?, hname, if_neg (hkind name).symm]

lemma unreplayable_collapseDistinctAfter (bare : Bool)
    (hops : ∀ op ∈ unreplayable ops, op.IsCustom) :
    unreplayable (collapseDistinctAfter bare ops) = unreplayable ops := by
  induction ops generalizing bare with
  | nil => rfl
  | cons op ops ih =>
    have hrest : ∀ op' ∈ unreplayable ops, op'.IsCustom := fun op' hop' =>
      hops op' ((List.sublist_cons_self op ops).filter _ |>.subset hop')
    rw [collapseDistinctAfter]
    split
    · rename_i hbare
      rw [Bool.and_eq_true] at hbare
      have hkind : op.kind = .distinct := eq_of_beq (Bool.and_eq_true_iff.1 hbare.2).1
      have hreplays : op.transform ≠ none := fun hnone => by
        obtain ⟨name, hname⟩ := hops op (mem_unreplayable.2 ⟨List.mem_cons_self, hnone⟩)
        rw [hname] at hkind
        cases hkind
      rw [unreplayable_cons_of_ne hreplays, ih true hrest]
    · rw [unreplayable_cons, ih op.isBareDistinct hrest, ← unreplayable_cons]

lemma unreplayable_squashOnce (hops : ∀ op ∈ unreplayable ops, op.IsCustom) :
    unreplayable (squashOnce E ops) = unreplayable ops := by
  have hfilters := unreplayable_squash (f := Fusion.filters E) (fun _ => rfl) nofun hops
  rw [← hfilters] at hops
  have hsorts := unreplayable_squash (f := Fusion.sorts E) (by rintro (_ | _) <;> rfl) nofun hops
  rw [← hsorts] at hops
  have hdistincts := unreplayable_collapseDistinctAfter false hops
  rw [← hdistincts] at hops
  have hskips := unreplayable_squash (f := Fusion.skips) (fun _ => rfl) nofun hops
  rw [← hskips] at hops
  have hlimits := unreplayable_squash (f := Fusion.limits) (fun _ => rfl) nofun hops
  exact hlimits.trans (hskips.trans (hdistincts.trans (hsorts.trans hfilters)))

lemma unreplayable_squashToFixpoint (hops : ∀ op ∈ unreplayable ops, op.IsCustom) :
    unreplayable (squashToFixpoint E ops) = unreplayable ops := by
  fun_induction squashToFixpoint E ops with
  | case1 ops next hfewer ih =>
    have hnext : unreplayable next = unreplayable ops := unreplayable_squashOnce hops
    rw [ih (by rwa [hnext]), hnext]
  | case2 ops next hdone => exact unreplayable_squashOnce hops

/-- Optimization leaves the operations that cannot be replayed as they are. -/
theorem unreplayable_optimize (settings : OptimizerSettings) (t : Terminal ρ)
    (hops : ∀ op ∈ unreplayable ops, op.IsCustom) :
    unreplayable (optimize E settings (some t) ops) = unreplayable ops := by
  have hadded : unreplayable (ops ++ added E settings t) = unreplayable ops := by
    have hnone : unreplayable (added E settings t) = [] := List.filter_eq_nil_iff.2 fun op hop => by
      have hsome := (Standard.selects (selects_added settings t op hop)).transform_isSome
      simpa [Option.isSome_iff_ne_none] using hsome
    rw [unreplayable_append, hnone, List.append_nil]
  rw [optimize_eq]
  split
  · rw [unreplayable_squashToFixpoint (by rwa [hadded]), hadded]
  · exact hadded

end Operation

namespace Absorption

variable {σ : Type} {verdict : Operation ρ → σ → Verdict ρ σ} {ops : List (Operation ρ)}

/-- An absorption leaves the operations that cannot be replayed as they are, if all of them are
declined. -/
lemma unreplayable_left
    (hdivides : ∀ op target target' residual, verdict op target = .divides target' residual →
      residual.transform ≠ none)
    (hops : ∀ op ∈ Operation.unreplayable ops, ∀ target, verdict op target = .declines)
    (target : σ) :
    Operation.unreplayable (absorb verdict ops target).left = Operation.unreplayable ops := by
  induction ops generalizing target with
  | nil => rfl
  | cons op ops ih =>
    have hrest : ∀ op' ∈ Operation.unreplayable ops, ∀ target, verdict op' target = .declines :=
      fun op' hop' => hops op' ((List.sublist_cons_self op ops).filter _ |>.subset hop')
    have hgoes (hv : verdict op target ≠ .declines) :
        Operation.unreplayable (op :: ops) = Operation.unreplayable ops := by
      refine Operation.unreplayable_cons_of_ne (fun hnone => hv (hops op ?_ target)) ops
      exact Operation.mem_unreplayable.2 ⟨List.mem_cons_self, hnone⟩
    rw [absorb]
    cases hv : verdict op target with
    | declines => rfl
    | fails e => rfl
    | absorbs target' => exact (ih hrest target').trans (hgoes (by simp [hv])).symm
    | divides target' residual =>
      have hresidual := hdivides op target target' residual hv
      rw [hgoes (by simp [hv])]
      exact Operation.unreplayable_cons_of_ne hresidual ops

end Absorption

namespace Verdict

variable {E : Entity ρ}

lemma onCriteria_of_isCustom {op : Operation ρ} (h : op.IsCustom) (c : Criteria) :
    onCriteria E op c = declines := by
  obtain ⟨name, hname⟩ := h
  rw [onCriteria, hname]

lemma onQuery_of_isCustom {op : Operation ρ} (h : op.IsCustom) (q : Query) :
    onQuery op q = declines := by
  obtain ⟨name, hname⟩ := h
  rw [onQuery, hname]

/-- What is left of a divided filter are its conjuncts with closures, in order. -/
lemma divides_of_onCriteria {op residual : Operation ρ} {c c' : Criteria}
    (h : onCriteria E op c = divides c' residual) :
    op.kind = .filter ∧ ∃ p, op.predicate? = some p ∧ residual =
      Operation.filter E (Predicate.ofConjuncts (p.conjuncts.filter fun q => !q.isPushable)) := by
  have hkind : op.kind = .filter := (residual_of_onCriteria h).1
  refine ⟨hkind, ?_⟩
  rw [onCriteria, hkind] at h
  simp only [onFilter] at h
  split at h
  · rename_i p hwindowed hp
    rw [List.partition_eq_filter_filter] at h
    exact ⟨p, hp, (residual_of_onConjuncts h).1⟩
  · cases h

end Verdict

namespace MergeOutcome

/-- What operations become if merge passes absorb as many of them as the outcome says: those in
front are gone, and a filter behind them may be absorbed but for its conjuncts with closures. -/
inductive Leaves (E : Entity ρ) (o : MergeOutcome) (ops : List (Operation ρ)) :
    List (Operation ρ) → Prop
  | whole (hreplaced : o.replaced = 0) (hremoved : o.removed ≤ ops.length) :
      Leaves E o ops (ops.drop o.removed)
  | divided {op : Operation ρ} {p : Predicate ρ} (hreplaced : o.replaced = 1)
      (hop : ops[o.removed]? = some op) (hkind : op.kind = .filter) (hp : op.predicate? = some p) :
      Leaves E o ops
        (.filter E (.ofConjuncts (p.conjuncts.filter fun q => !q.isPushable)) ::
          ops.drop (o.removed + 1))

end MergeOutcome

namespace Registry

open Operation

variable (E : Entity ρ) {ops : List (Operation ρ)}

lemma unreplayable_absorbCriteria (hops : ∀ op ∈ unreplayable ops, op.IsCustom) (c : Criteria) :
    unreplayable (absorbCriteria E ops c).left = unreplayable ops := by
  refine Absorption.unreplayable_left (fun op c c' residual h => ?_)
    (fun op hop => Verdict.onCriteria_of_isCustom (hops op hop)) c
  obtain ⟨-, p, -, rfl⟩ := Verdict.divides_of_onCriteria h
  nofun

lemma unreplayable_absorbQuery (hops : ∀ op ∈ unreplayable ops, op.IsCustom) (q : Query) :
    unreplayable (absorbQuery ops q).left = unreplayable ops :=
  Absorption.unreplayable_left (fun _ _ _ _ h => absurd h Verdict.onQuery_ne_divides)
    (fun op hop => Verdict.onQuery_of_isCustom (hops op hop)) q

/-- The operations that cannot be replayed are never pushed down. -/
lemma unreplayable_merge (hops : ∀ op ∈ unreplayable ops, op.IsCustom) (q : Query) :
    unreplayable ((standard E).merge ops q).operations = unreplayable ops := by
  obtain ⟨hoperations, -⟩ := merge_standard E ops q
  have hfirst := unreplayable_absorbCriteria E hops q.criteria
  rw [hoperations, unreplayable_absorbQuery (by rwa [hfirst]), hfirst]

/-- What the criteria pass leaves, if the outcome counts what it absorbs. -/
lemma leaves_absorbCriteria (ops : List (Operation ρ)) (c : Criteria) {o : MergeOutcome}
    (hremoved : o.removed = (absorbCriteria E ops c).absorbed)
    (hreplaced : o.replaced = (absorbCriteria E ops c).residual?.toList.length) :
    o.Leaves E ops (absorbCriteria E ops c).left := by
  unfold absorbCriteria at *
  rcases Absorption.left_cases (Verdict.onCriteria E) ops c with
    ⟨hnone, hleft⟩ | ⟨op, before, after, residual, hop, hdivides, hsome, hleft, -⟩
  · have hlength := Absorption.length_left (Verdict.onCriteria E) ops c
    rw [hleft, ← hremoved]
    exact .whole (by rw [hreplaced, hnone]; rfl) (by omega)
  · obtain ⟨hkind, p, hp, rfl⟩ := Verdict.divides_of_onCriteria hdivides
    rw [hleft, ← hremoved]
    exact .divided (by rw [hreplaced, hsome]; rfl) (by rwa [hremoved]) hkind hp

lemma leaves_mergeCriteria (ops : List (Operation ρ)) (c : Criteria) :
    let p := (standard E).mergeCriteria ops c
    p.outcome.Leaves E ops p.operations := by
  intro p
  obtain ⟨hoperations, -, hremoved, hreplaced, -⟩ := mergeCriteria_standard E ops c
  rw [hoperations]
  exact leaves_absorbCriteria E ops c hremoved hreplaced

lemma leaves_merge (ops : List (Operation ρ)) (q : Query) :
    let p := (standard E).merge ops q
    p.outcome.Leaves E ops p.operations := by
  intro p
  let a := absorbCriteria E ops q.criteria
  let q' : Query := { q with criteria := a.target }
  let b := absorbQuery a.left q'
  obtain ⟨hoperations, -, hremoved, hreplaced⟩ := merge_standard E ops q
  change p.operations = b.left at hoperations
  change p.outcome.removed = a.absorbed + b.absorbed at hremoved
  change p.outcome.replaced = a.residual?.toList.length + b.residual?.toList.length at hreplaced
  have hwhole : b.residual? = none :=
    Absorption.residual?_eq_none (fun _ _ _ _ => Verdict.onQuery_ne_divides) a.left q'
  rw [hwhole] at hreplaced
  rw [hoperations]
  rcases Absorption.left_cases (Verdict.onCriteria E) ops q.criteria with
    ⟨hnone, hleft⟩ | ⟨op, before, after, residual, hop, hdivides, hsome, hleft, -⟩
  · -- the query pass goes on where the criteria pass ends
    have hlength : a.left.length + a.absorbed = ops.length := Absorption.length_left _ ops _
    have hlength' : b.left.length + b.absorbed = a.left.length := Absorption.length_left _ a.left q'
    have hleft' : b.left = a.left.drop b.absorbed := by
      rcases Absorption.left_cases Verdict.onQuery a.left q' with
        ⟨-, hleft'⟩ | ⟨op, before, after, residual, -, hdivides, -⟩
      · exact hleft'
      · exact absurd hdivides Verdict.onQuery_ne_divides
    change a.residual? = none at hnone
    change a.left = ops.drop a.absorbed at hleft
    rw [hleft', hleft, List.drop_drop, ← hremoved]
    exact .whole (by rw [hreplaced, hnone]; rfl) (by omega)
  · -- a residual is a filter, and stands in the way of the query pass
    obtain ⟨-, p', -, rfl⟩ := Verdict.divides_of_onCriteria hdivides
    have hhalts : Absorption.Halts Verdict.onQuery a.left q' := by
      change a.left = _ at hleft
      rw [hleft]
      rfl
    have hidle : b.absorbed = 0 := (Absorption.halts_iff.1 hhalts).1
    rw [show b.left = a.left from hhalts.unchanged.1]
    exact leaves_absorbCriteria E ops q.criteria (by rw [hremoved, hidle, Nat.add_zero]) hreplaced

end Registry

end Pushdown
