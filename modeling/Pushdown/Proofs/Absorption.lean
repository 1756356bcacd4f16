import Mathlib.Tactic.Lemma
import Pushdown.Merge.Pass

/-!
# Absorption

A merge pass absorbs operations from the front as long as they go in whole. What it leaves and what
becomes of its target follow from the verdict on each operation, so that the marks a pass sets on
its way need to be looked at only once.
-/

namespace Pushdown

/-- What becomes of one operation in a pass over a target `σ`. -/
inductive Verdict (ρ σ : Type)
  | declines
  | fails (e : LoweringError)
  | absorbs (target : σ)
  | divides (target : σ) (residual : Operation ρ)

/-- The target once the operation has gone in, whole or in part. -/
def Verdict.target? {ρ σ : Type} : Verdict ρ σ → Option σ
  | declines | fails _ => none
  | absorbs target | divides target _ => some target

/-- The same verdict on a target that `f` has altered. -/
def Verdict.map {ρ σ : Type} (f : σ → σ) : Verdict ρ σ → Verdict ρ σ
  | declines => declines
  | fails e => fails e
  | absorbs target => absorbs (f target)
  | divides target residual => divides (f target) residual

/-- What a pass does: it absorbs operations whole, divides the one behind them or fails on it, and
leaves the rest. -/
structure Absorption (ρ σ : Type) where
  target : σ
  absorbed : Nat
  residual? : Option (Operation ρ)
  rest : List (Operation ρ)
  failure? : Option LoweringError

namespace Absorption

variable {ρ σ : Type}

def left (a : Absorption ρ σ) : List (Operation ρ) := a.residual?.toList ++ a.rest

/-- Absorbs operations for as long as the verdict is to absorb. -/
def absorb (verdict : Operation ρ → σ → Verdict ρ σ) : List (Operation ρ) → σ → Absorption ρ σ
  | [], target => ⟨target, 0, none, [], none⟩
  | op :: ops, target =>
    match verdict op target with
    | .declines => ⟨target, 0, none, op :: ops, none⟩
    | .fails e => ⟨target, 0, none, op :: ops, some e⟩
    | .absorbs target' =>
      let a := absorb verdict ops target'
      { a with absorbed := a.absorbed + 1 }
    | .divides target' residual => ⟨target', 0, some residual, ops, none⟩

/-- An absorption takes operations off the front. -/
lemma exists_append_rest (verdict : Operation ρ → σ → Verdict ρ σ) (ops : List (Operation ρ))
    (target : σ) :
    ∃ front divided, ops = front ++ divided ++ (absorb verdict ops target).rest ∧
      front.length = (absorb verdict ops target).absorbed ∧
      divided.length = (absorb verdict ops target).residual?.toList.length := by
  induction ops generalizing target with
  | nil => exact ⟨[], [], rfl, rfl, rfl⟩
  | cons op ops ih =>
    rw [absorb]
    cases verdict op target with
    | declines => exact ⟨[], [], rfl, rfl, rfl⟩
    | fails e => exact ⟨[], [], rfl, rfl, rfl⟩
    | absorbs target' =>
      obtain ⟨front, divided, hops, hfront, hdivided⟩ := ih target'
      refine ⟨op :: front, divided, ?_, ?_, hdivided⟩
      · exact congrArg (List.cons op) hops
      · exact congrArg Nat.succ hfront
    | divides target' residual => exact ⟨[], [op], rfl, rfl, rfl⟩

/-- Where each operation in front goes in whole, the absorption goes on behind them. -/
lemma absorb_append {verdict : Operation ρ → σ → Verdict ρ σ} {P : σ → Prop}
    {front : List (Operation ρ)}
    (hfront : ∀ op ∈ front, ∀ target, P target →
      ∃ target', verdict op target = .absorbs target' ∧ P target')
    (rest : List (Operation ρ)) (target : σ) (htarget : P target) :
    ∃ target', P target' ∧ absorb verdict (front ++ rest) target =
      { absorb verdict rest target' with
        absorbed := front.length + (absorb verdict rest target').absorbed } := by
  induction front generalizing target with
  | nil => exact ⟨target, htarget, by simp⟩
  | cons op front ih =>
    obtain ⟨hop, hfront⟩ := List.forall_mem_cons.1 hfront
    obtain ⟨next, hv, hnext⟩ := hop target htarget
    obtain ⟨target', htarget', habsorb⟩ := ih hfront next hnext
    refine ⟨target', htarget', ?_⟩
    rw [List.cons_append, absorb, hv]
    simp only [habsorb, List.length_cons]
    congr 1
    omega

/-- An absorption that leaves nothing goes on with what stands behind. -/
lemma absorb_append_of_left_eq_nil {verdict : Operation ρ → σ → Verdict ρ σ}
    {front : List (Operation ρ)} {target : σ} (h : (absorb verdict front target).left = [])
    (rest : List (Operation ρ)) :
    let a := absorb verdict rest (absorb verdict front target).target
    absorb verdict (front ++ rest) target = { a with absorbed := front.length + a.absorbed } := by
  intro a
  induction front generalizing target with
  | nil => simp [a, absorb]
  | cons op front ih =>
    rw [absorb] at h
    simp only [a, List.cons_append, absorb]
    cases hv : verdict op target with
    | absorbs next =>
      rw [hv] at h
      simp only [ih h, List.length_cons]
      congr 1
      omega
    | _ =>
      rw [hv] at h
      cases h

/-- An absorption that stops on its way leaves what stands behind as well. -/
lemma absorb_append_of_left_ne_nil {verdict : Operation ρ → σ → Verdict ρ σ}
    {front : List (Operation ρ)} {target : σ} (h : (absorb verdict front target).left ≠ [])
    (rest : List (Operation ρ)) :
    let a := absorb verdict front target
    absorb verdict (front ++ rest) target = { a with rest := a.rest ++ rest } := by
  intro a
  induction front generalizing target with
  | nil => exact absurd rfl h
  | cons op front ih =>
    rw [absorb] at h
    simp only [a, List.cons_append, absorb]
    cases hv : verdict op target with
    | absorbs next =>
      rw [hv] at h
      simp only [ih h]
    | _ => rfl

/-- What an absorption leaves are operations from before, and residuals. -/
lemma mem_left {verdict : Operation ρ → σ → Verdict ρ σ} {P : Operation ρ → Prop}
    (hdivides : ∀ op target target' residual,
      verdict op target = .divides target' residual → P residual)
    {ops : List (Operation ρ)} {target : σ} :
    ∀ op ∈ (absorb verdict ops target).left, op ∈ ops ∨ P op := by
  induction ops generalizing target with
  | nil => nofun
  | cons op ops ih =>
    rw [absorb]
    cases hv : verdict op target with
    | declines => exact fun op' hop' => Or.inl hop'
    | fails e => exact fun op' hop' => Or.inl hop'
    | absorbs target' =>
      intro op' hop'
      exact (ih op' hop').imp_left (List.mem_cons_of_mem _)
    | divides target' residual =>
      intro op' hop'
      rcases List.mem_cons.1 hop' with rfl | hop'
      · exact Or.inr (hdivides op target target' op' hv)
      · exact Or.inl (List.mem_cons_of_mem _ hop')

/-- Dividing an operation leaves one operation in its place. -/
lemma length_left (verdict : Operation ρ → σ → Verdict ρ σ) (ops : List (Operation ρ))
    (target : σ) :
    (absorb verdict ops target).left.length + (absorb verdict ops target).absorbed =
      ops.length := by
  obtain ⟨front, divided, hops, hfront, hdivided⟩ := exists_append_rest verdict ops target
  have hlength := congrArg List.length hops
  rw [List.length_append, List.length_append] at hlength
  rw [left, List.length_append]
  omega

/-- What holds of the target at first, and still holds after each operation that goes in, holds of
the target in the end. The operations that went in stand at the front. -/
lemma absorb_induction {verdict : Operation ρ → σ → Verdict ρ σ}
    {Q : List (Operation ρ) → σ → Prop}
    (hstep : ∀ before op target target', Q before target →
      (verdict op target).target? = some target' → Q (before ++ [op]) target')
    (ops : List (Operation ρ)) {before : List (Operation ρ)} {target : σ}
    (htarget : Q before target) :
    ∃ front, ops = front ++ (absorb verdict ops target).rest ∧
      Q (before ++ front) (absorb verdict ops target).target ∧
      front.length = (absorb verdict ops target).absorbed +
        (absorb verdict ops target).residual?.toList.length := by
  have hstays : Q (before ++ []) target := by rwa [List.append_nil]
  induction ops generalizing before target with
  | nil => exact ⟨[], rfl, hstays, rfl⟩
  | cons op ops ih =>
    have hgoes := hstep before op target
    rw [absorb]
    cases hv : verdict op target with
    | declines => exact ⟨[], rfl, hstays, rfl⟩
    | fails e => exact ⟨[], rfl, hstays, rfl⟩
    | absorbs target' =>
      have hnext : Q (before ++ [op]) target' := hgoes target' htarget (by rw [hv]; rfl)
      obtain ⟨front, hops, hQ, hlength⟩ := ih hnext (by rwa [List.append_nil])
      refine ⟨op :: front, congrArg (List.cons op) hops, ?_, ?_⟩
      · rwa [List.append_cons]
      · simp only [List.length_cons, hlength]
        omega
    | divides target' residual =>
      exact ⟨[op], rfl, hgoes target' htarget (by rw [hv]; rfl), rfl⟩

/-- An absorption leaves all that stands behind the operations it absorbs, but for the one it
divides. -/
lemma left_cases (verdict : Operation ρ → σ → Verdict ρ σ) (ops : List (Operation ρ))
    (target : σ) :
    let a := absorb verdict ops target
    a.residual? = none ∧ a.left = ops.drop a.absorbed ∨
      ∃ op before after residual, ops[a.absorbed]? = some op ∧
        verdict op before = .divides after residual ∧ a.residual? = some residual ∧
        a.left = residual :: ops.drop (a.absorbed + 1) ∧ a.failure? = none := by
  induction ops generalizing target with
  | nil => exact Or.inl ⟨rfl, rfl⟩
  | cons op ops ih =>
    rw [absorb]
    cases hv : verdict op target with
    | declines => exact Or.inl ⟨rfl, rfl⟩
    | fails e => exact Or.inl ⟨rfl, rfl⟩
    | absorbs target' => exact ih target'
    | divides target' residual =>
      exact Or.inr ⟨op, target, target', residual, rfl, hv, rfl, rfl, rfl⟩

lemma residual?_eq_none {verdict : Operation ρ → σ → Verdict ρ σ}
    (hdivides : ∀ op target target' residual, verdict op target ≠ .divides target' residual)
    (ops : List (Operation ρ)) (target : σ) : (absorb verdict ops target).residual? = none := by
  rcases left_cases verdict ops target with ⟨hnone, -⟩ | ⟨op, before, after, residual, -, hv, -⟩
  · exact hnone
  · exact absurd hv (hdivides op before after residual)

/-- A residual is what is left of some operation that was divided. -/
lemma exists_divides_of_residual {verdict : Operation ρ → σ → Verdict ρ σ}
    {ops : List (Operation ρ)} {target : σ} {residual : Operation ρ}
    (h : (absorb verdict ops target).residual? = some residual) :
    ∃ op target target', verdict op target = .divides target' residual := by
  rcases left_cases verdict ops target with
    ⟨hnone, -⟩ | ⟨op, before, after, residual', -, hv, hsome, -⟩
  · cases hnone.symm.trans h
  · obtain rfl := Option.some.inj (hsome.symm.trans h)
    exact ⟨op, before, after, hv⟩

/-- An operation that fails is still there, with everything behind it. -/
lemma left_of_failure {verdict : Operation ρ → σ → Verdict ρ σ} {ops : List (Operation ρ)}
    {target : σ} {e : LoweringError} (h : (absorb verdict ops target).failure? = some e) :
    (absorb verdict ops target).left = ops.drop (absorb verdict ops target).absorbed := by
  rcases left_cases verdict ops target with
    ⟨-, hleft⟩ | ⟨op, before, after, residual, -, -, -, -, hnone⟩
  · exact hleft
  · cases hnone.symm.trans h

lemma failure?_eq_none {verdict : Operation ρ → σ → Verdict ρ σ}
    (hfails : ∀ op target e, verdict op target ≠ .fails e)
    (ops : List (Operation ρ)) (target : σ) : (absorb verdict ops target).failure? = none := by
  induction ops generalizing target with
  | nil => rfl
  | cons op ops ih =>
    rw [absorb]
    cases hv : verdict op target with
    | declines => rfl
    | fails e => exact absurd hv (hfails op target e)
    | absorbs target' => exact ih target'
    | divides target' residual => rfl

/-- What verdicts do not depend on may be altered before or after. -/
lemma absorb_map {verdict : Operation ρ → σ → Verdict ρ σ} {f : σ → σ}
    (hf : ∀ op target, verdict op (f target) = (verdict op target).map f)
    (ops : List (Operation ρ)) (target : σ) :
    absorb verdict ops (f target) =
      { absorb verdict ops target with target := f (absorb verdict ops target).target } := by
  induction ops generalizing target with
  | nil => rfl
  | cons op ops ih =>
    rw [absorb, absorb, hf]
    cases verdict op target with
    | declines => rfl
    | fails e => rfl
    | absorbs target' =>
      simp only [Verdict.map]
      rw [ih]
    | divides target' residual => rfl

/-- Nothing goes in: there is no operation, or the first one is declined or fails. -/
def Halts (verdict : Operation ρ → σ → Verdict ρ σ) : List (Operation ρ) → σ → Prop
  | [], _ => True
  | op :: _, target => (verdict op target).target? = none

section Halts

variable {verdict : Operation ρ → σ → Verdict ρ σ} {ops : List (Operation ρ)} {target : σ}

lemma halts_iff : Halts verdict ops target ↔
    (absorb verdict ops target).absorbed = 0 ∧
      (absorb verdict ops target).residual? = none := by
  cases ops with
  | nil => exact iff_of_true trivial ⟨rfl, rfl⟩
  | cons op ops =>
    rw [Halts, absorb]
    cases verdict op target with
    | declines => exact iff_of_true rfl ⟨rfl, rfl⟩
    | fails e => exact iff_of_true rfl ⟨rfl, rfl⟩
    | absorbs target' => exact iff_of_false nofun fun h => Nat.succ_ne_zero _ h.1
    | divides target' residual => exact iff_of_false nofun fun h => nomatch h.2

lemma Halts.unchanged (h : Halts verdict ops target) :
    (absorb verdict ops target).left = ops ∧ (absorb verdict ops target).target = target := by
  cases ops with
  | nil => exact ⟨rfl, rfl⟩
  | cons op ops =>
    rw [Halts] at h
    rw [absorb]
    cases hv : verdict op target with
    | declines => exact ⟨rfl, rfl⟩
    | fails e => exact ⟨rfl, rfl⟩
    | absorbs target' =>
      rw [hv] at h
      cases h
    | divides target' residual =>
      rw [hv] at h
      cases h

/-- An operation that never goes in is still there, with everything behind it. -/
lemma suffix_left {op : Operation ρ} (hnever : ∀ target, (verdict op target).target? = none)
    {rest : List (Operation ρ)} (h : op :: rest <:+ ops) (target : σ) :
    op :: rest <:+ (absorb verdict ops target).left := by
  induction ops generalizing target with
  | nil => exact absurd (List.suffix_nil.1 h) (List.cons_ne_nil op rest)
  | cons op' ops ih =>
    rcases List.suffix_cons_iff.1 h with hsame | hrest
    · have hhalts : Halts verdict (op :: rest) target := hnever target
      rw [← hsame]
      exact ⟨[], hhalts.unchanged.1.symm⟩
    · rw [absorb]
      cases verdict op' target with
      | declines => exact h
      | fails e => exact h
      | absorbs target' => exact ih hrest target'
      | divides target' residual => exact hrest.trans (List.suffix_cons residual ops)

/-- If dividing an operation changes the target, only an absorption that halts at once changes
nothing: any other shortens the operations or changes the target. -/
lemma halts_iff_unchanged
    (hdivides : ∀ op target target' residual,
      verdict op target = .divides target' residual → target' ≠ target) :
    Halts verdict ops target ↔
      (absorb verdict ops target).left = ops ∧ (absorb verdict ops target).target = target := by
  refine ⟨Halts.unchanged, fun ⟨hleft, htarget⟩ => halts_iff.2 ?_⟩
  have hlength := length_left verdict ops target
  rw [hleft] at hlength
  refine ⟨by omega, ?_⟩
  cases ops with
  | nil => rfl
  | cons op ops =>
    rw [absorb] at htarget hlength ⊢
    cases hv : verdict op target with
    | declines => rfl
    | fails e => rfl
    | absorbs target' =>
      rw [hv] at hlength
      simp at hlength
    | divides target' residual =>
      rw [hv] at htarget
      exact absurd htarget (hdivides op target target' residual hv)

/-- An absorption goes on until it halts, if what it leaves of a divided operation goes in no
further. -/
lemma halts_absorb
    (hdivides : ∀ op target target' residual,
      verdict op target = .divides target' residual → (verdict residual target').target? = none) :
    Halts verdict (absorb verdict ops target).left (absorb verdict ops target).target := by
  induction ops generalizing target with
  | nil => trivial
  | cons op ops ih =>
    rw [absorb]
    cases hv : verdict op target with
    | declines => simp [left, Halts, hv, Verdict.target?]
    | fails e => simp [left, Halts, hv, Verdict.target?]
    | absorbs target' => exact ih
    | divides target' residual => exact hdivides op target target' residual hv

end Halts

end Absorption

namespace Entries

variable {κ β : Type} [Ord κ]

/-- A key behind all others goes to the end. -/
lemma alterIn_of_gt {k : κ} {es : List (κ × β)} (h : ∀ e ∈ es, compare k e.1 = .gt)
    (f : Option β → β) : alterIn k f es = es ++ [(k, f none)] := by
  induction es with
  | nil => rfl
  | cons e es ih =>
    rw [alterIn, h e List.mem_cons_self, ih fun e' he' => h e' (List.mem_cons_of_mem _ he')]
    rfl

end Entries

namespace Tracker

variable {ρ : Type}

/-- The marks of a pass that has absorbed the first `n` operations. -/
def absorbedMarks (n : Nat) : List (Nat × Mark ρ) := (List.range n).map fun i => (i, .absorbed)

lemma absorbedMarks_succ (n : Nat) :
    (absorbedMarks (n + 1) : List (Nat × Mark ρ)) = absorbedMarks n ++ [(n, .absorbed)] := by
  simp [absorbedMarks, List.range_succ]

lemma compare_of_mem_absorbedMarks {n : Nat} {e : Nat × Mark ρ} (h : e ∈ absorbedMarks n) :
    compare n e.1 = .gt := by
  obtain ⟨i, hi, rfl⟩ := List.mem_map.1 h
  exact Nat.compare_eq_gt.2 (List.mem_range.1 hi)

lemma removals_of_marks {t : Tracker ρ} {n : Nat} {residual? : Option (Operation ρ)}
    (h : t.marks.toList = absorbedMarks n ++ residual?.toList.map fun op => (n, .residual op)) :
    t.removals = List.range n ∧ t.residuals = residual?.toList.map fun op => (n, op) := by
  simp only [removals, residuals, h, absorbedMarks, List.filterMap_append, List.filterMap_map,
    Function.comp_def]
  cases residual? with
  | none => simp
  | some op => simp

lemma eraseEach_range {n : Nat} {ops : List (Operation ρ)} (h : n ≤ ops.length) :
    eraseEach (List.range n).reverse ops = .ok (ops.drop n) := by
  induction n generalizing ops with
  | zero => rfl
  | succ n ih =>
    have hlength : n ≤ (ops.eraseIdx n).length := by
      rw [List.length_eraseIdx_of_lt h]
      omega
    have hdrop : (ops.eraseIdx n).drop n = ops.drop (n + 1) := by
      rw [List.eraseIdx_eq_take_drop_succ, List.drop_append_of_le_length (by simp; omega)]
      simp
    rw [List.range_succ, List.reverse_append, List.reverse_singleton, List.singleton_append,
      eraseEach, if_pos (Nat.lt_of_succ_le h), ih hlength, hdrop]

/-- Absorbed operations are stripped from the front, and the one behind them is replaced. -/
lemma applyTo_of_marks {t : Tracker ρ} {residual? : Option (Operation ρ)}
    (front divided rest : List (Operation ρ))
    (h : t.marks.toList =
      absorbedMarks front.length ++ residual?.toList.map fun op => (front.length, .residual op))
    (hdivided : divided.length = residual?.toList.length) :
    t.applyTo (front ++ divided ++ rest) = .ok (residual?.toList ++ rest) := by
  obtain ⟨hremovals, hresiduals⟩ := removals_of_marks h
  have hreplaced : replaceEach t.residuals (front ++ divided ++ rest) =
      .ok (front ++ residual?.toList ++ rest) := by
    rw [hresiduals]
    match residual?, divided, hdivided with
    | none, [], _ => rfl
    | some op, [op'], _ =>
      have hlt : front.length < (front ++ [op'] ++ rest).length := by
        simp
      simp [replaceEach]
  rw [applyTo, hreplaced, hremovals]
  refine (eraseEach_range (by simp)).trans ?_
  simp

lemma find?_of_marks {t : Tracker ρ} {n : Nat} (h : t.marks.toList = absorbedMarks n) :
    t.marks.find? n = none := by
  rw [Entries.find?, h]
  exact Entries.findIn_eq_none fun e he => by
    rw [compare_of_mem_absorbedMarks he]
    decide

lemma insert_of_marks {t : Tracker ρ} {n : Nat} (h : t.marks.toList = absorbedMarks n)
    (m : Mark ρ) : (t.marks.insert n m).toList = absorbedMarks n ++ [(n, m)] := by
  rw [Entries.insert, h]
  exact Entries.alterIn_of_gt (fun e he => compare_of_mem_absorbedMarks he) _

end Tracker

namespace Verdict

variable {ρ σ : Type}

/-- The state that a verdict on the operation at `i` leads to, and the failure. Which kinds are
merged is left open. -/
def Settles (i : Nat) (s : MergeState ρ σ) : Verdict ρ σ →
    MergeState ρ σ × Option LoweringError → Prop
  | declines, next => next = (s, none)
  | fails e, next => next = (s, some e)
  | absorbs target, next => ∃ kinds,
      next = (⟨target, s.tracker.marks.insert i .absorbed, kinds, s.tracker.failures⟩, none)
  | divides target op, next => ∃ kinds,
      next = (⟨target, s.tracker.marks.insert i (.residual op), kinds, s.tracker.failures⟩, none)

lemma Settles.eq_of_failure {i : Nat} {s : MergeState ρ σ} {v : Verdict ρ σ}
    {next : MergeState ρ σ × Option LoweringError} (h : v.Settles i s next) {e : LoweringError}
    (he : next.2 = some e) : next.1 = s := by
  cases v with
  | declines =>
    obtain rfl := h
    rfl
  | fails e' =>
    obtain rfl := h
    rfl
  | absorbs target =>
    obtain ⟨kinds, rfl⟩ := h
    cases he
  | divides target residual =>
    obtain ⟨kinds, rfl⟩ := h
    cases he

/-- A verdict enters no failure in the books; the pass does. -/
lemma Settles.failures_eq {i : Nat} {s : MergeState ρ σ} {v : Verdict ρ σ}
    {next : MergeState ρ σ × Option LoweringError} (h : v.Settles i s next) :
    next.1.tracker.failures = s.tracker.failures := by
  cases v with
  | declines =>
    obtain rfl := h
    rfl
  | fails e' =>
    obtain rfl := h
    rfl
  | absorbs target =>
    obtain ⟨kinds, rfl⟩ := h
    rfl
  | divides target residual =>
    obtain ⟨kinds, rfl⟩ := h
    rfl

end Verdict

namespace Pass

open Absorption

variable {ρ σ : Type} {strategies : Kind → List (Strategy ρ σ)}
  {verdict : Operation ρ → σ → Verdict ρ σ} {Inv : MergeState ρ σ → Prop}

/-- In states with the invariant `Inv`, the strategies do what the verdict says, and they keep the
invariant. -/
def Follows (strategies : Kind → List (Strategy ρ σ)) (verdict : Operation ρ → σ → Verdict ρ σ)
    (Inv : MergeState ρ σ → Prop) : Prop :=
  ∀ i op s, Inv s → (verdict op s.target).Settles i s (tryEach i op (strategies op.kind) s) ∧
    Inv (tryEach i op (strategies op.kind) s).1

/-- From a state in which the first `i` operations are absorbed, the walk comes to the target and
to the marks of the absorption. -/
lemma walk_eq (hfollows : Follows strategies verdict Inv) {i : Nat} {s : MergeState ρ σ}
    (hinv : Inv s) (hmarks : s.tracker.marks.toList = Tracker.absorbedMarks i)
    (ops : List (Operation ρ)) :
    let a := absorb verdict ops s.target
    let s' := walk strategies i ops s
    s'.target = a.target ∧
      s'.tracker.marks.toList = Tracker.absorbedMarks (i + a.absorbed) ++
        a.residual?.toList.map (fun op => (i + a.absorbed, .residual op)) ∧
      s'.tracker.failures =
        s.tracker.failures ++ a.failure?.toList.map fun e => (i + a.absorbed, e) := by
  induction ops generalizing i s with
  | nil =>
    refine ⟨rfl, ?_, ?_⟩
    · simpa [walk, absorb] using hmarks
    · simp [walk, absorb]
  | cons op ops ih =>
    obtain ⟨hnext, hinv'⟩ := hfollows i op s hinv
    have hfind := Tracker.find?_of_marks hmarks
    rw [walk, absorb]
    generalize tryEach i op (strategies op.kind) s = next at hnext hinv'
    cases hv : verdict op s.target with
    | declines =>
      rw [hv] at hnext
      obtain rfl := hnext
      simpa [Tracker.isMarkedForRemoval, hfind] using hmarks
    | fails e =>
      rw [hv] at hnext
      obtain rfl := hnext
      simpa [Tracker.recordFailure] using hmarks
    | absorbs target =>
      rw [hv] at hnext
      obtain ⟨kinds, rfl⟩ := hnext
      have hinsert := Tracker.insert_of_marks hmarks .absorbed
      rw [← Tracker.absorbedMarks_succ] at hinsert
      have hrest := ih hinv' hinsert
      simpa [Tracker.isMarkedForRemoval, Nat.add_assoc, Nat.add_comm 1] using hrest
    | divides target residual =>
      rw [hv] at hnext
      obtain ⟨kinds, rfl⟩ := hnext
      have hinsert := Tracker.insert_of_marks hmarks (.residual residual)
      simpa [Tracker.isMarkedForRemoval] using hinsert

/-- A pass leaves what the absorption leaves, and reports what it does. -/
theorem run_eq (hfollows : Follows strategies verdict Inv) (ops : List (Operation ρ)) {target : σ}
    (hinv : Inv ⟨target, .new⟩) :
    let a := absorb verdict ops target
    let p := run strategies ops target
    p.operations = a.left ∧ p.target = a.target ∧ p.outcome.removed = a.absorbed ∧
      p.outcome.replaced = a.residual?.toList.length ∧
      p.outcome.failures = a.failure?.toList := by
  intro a p
  obtain ⟨htarget, hmarks, hfailures⟩ := walk_eq hfollows hinv (i := 0) rfl ops
  obtain ⟨front, divided, hops, hfront, hdivided⟩ := exists_append_rest verdict ops target
  rw [Nat.zero_add, ← hfront] at hmarks
  obtain ⟨hremovals, hresiduals⟩ := Tracker.removals_of_marks hmarks
  have hleft := Tracker.applyTo_of_marks front divided a.rest hmarks hdivided
  rw [← hops] at hleft
  refine ⟨?_, htarget, ?_, ?_, ?_⟩
  · simp only [p, run, hleft]
    rfl
  · simp [p, run, Tracker.outcome, hremovals, hfront, a]
  · simp [p, run, Tracker.outcome, hresiduals, a]
  · simp only [p, run, Tracker.outcome, hfailures, List.map_append, List.map_map]
    simp [Tracker.new, Function.comp_def, a]

/-- A pass reports that it did nothing just if it halts at once. -/
lemma isNoop_run_iff (hfollows : Follows strategies verdict Inv) (ops : List (Operation ρ))
    {target : σ} (hinv : Inv ⟨target, .new⟩) :
    (run strategies ops target).outcome.isNoop = true ↔ Halts verdict ops target := by
  obtain ⟨-, -, hremoved, hreplaced, -⟩ := run_eq hfollows ops hinv
  rw [MergeOutcome.isNoop, hremoved, hreplaced, halts_iff, Bool.and_eq_true, beq_iff_eq,
    beq_iff_eq, List.length_eq_zero_iff, Option.toList_eq_nil_iff]

end Pass
end Pushdown
