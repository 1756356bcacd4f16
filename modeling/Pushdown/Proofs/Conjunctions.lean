import Mathlib.Tactic.Lemma
import Pushdown.Condition.Predicate
import Pushdown.Query.Restriction

/-!
# Conjunctions

A predicate holds exactly where all its conjuncts do, so it may be taken apart, divided and put
together again. A restriction is put together in the same way.
-/

namespace Pushdown

namespace Predicate

variable {ρ : Type}

mutual

/-- A conjunct is no conjunction. -/
theorem ne_all_of_mem_conjuncts : ∀ (p : Predicate ρ) {q}, q ∈ p.conjuncts → ∀ ps, q ≠ all ps
  | always, q, hq | never, q, hq | column _, q, hq | any _, q, hq | not _, q, hq
  | closure _, q, hq => by
    obtain rfl := List.mem_singleton.1 hq
    nofun
  | all ps, q, hq => ne_all_of_mem_conjunctsOfAll ps (by rwa [conjuncts] at hq)

theorem ne_all_of_mem_conjunctsOfAll :
    ∀ (ps : List (Predicate ρ)) {q}, q ∈ conjunctsOfAll ps → ∀ qs, q ≠ all qs
  | [], _, hq => nomatch hq
  | p :: ps, q, hq => by
    rcases List.mem_append.1 hq with hq | hq
    · exact ne_all_of_mem_conjuncts p hq
    · exact ne_all_of_mem_conjunctsOfAll ps hq

end

lemma conjuncts_of_ne_all {p : Predicate ρ} (h : ∀ ps, p ≠ all ps) : p.conjuncts = [p] := by
  cases p with
  | all ps => exact absurd rfl (h ps)
  | _ => rfl

lemma conjunctsOfAll_of_ne_all {ps : List (Predicate ρ)} (h : ∀ p ∈ ps, ∀ qs, p ≠ all qs) :
    conjunctsOfAll ps = ps := by
  induction ps with
  | nil => rfl
  | cons p ps ih =>
    obtain ⟨hp, hps⟩ := List.forall_mem_cons.1 h
    rw [conjunctsOfAll, conjuncts_of_ne_all hp, ih hps]
    rfl

/-- Conjuncts put together again are the conjuncts of the whole. -/
lemma conjuncts_ofConjuncts {ps : List (Predicate ρ)} (hps : ps ≠ [])
    (h : ∀ p ∈ ps, ∀ qs, p ≠ all qs) : (ofConjuncts ps).conjuncts = ps := by
  match ps, hps with
  | [p], _ => exact conjuncts_of_ne_all (h p List.mem_cons_self)
  | p :: q :: ps, _ => exact conjunctsOfAll_of_ne_all h

/-- A conjunction with flat members has the conjuncts of both sides. -/
lemma conjuncts_and (p q : Predicate ρ) : (p.and q).conjuncts = p.conjuncts ++ q.conjuncts := by
  rw [and, conjuncts, conjunctsOfAll_of_ne_all]
  intro r hr
  rcases List.mem_append.1 hr with hr | hr
  · exact ne_all_of_mem_conjuncts p hr
  · exact ne_all_of_mem_conjuncts q hr

mutual

/-- What a conjunction satisfies just if all its members do, a predicate satisfies just if all its
conjuncts do. -/
theorem all_conjuncts_eq {f : Predicate ρ → Bool} (hf : ∀ ps, f (all ps) = ps.all f) :
    ∀ p : Predicate ρ, p.conjuncts.all f = f p
  | always | never | column _ | any _ | not _ | closure _ => by simp [conjuncts]
  | all ps => by
    rw [conjuncts, hf]
    exact all_conjunctsOfAll_eq hf ps

theorem all_conjunctsOfAll_eq {f : Predicate ρ → Bool} (hf : ∀ ps, f (all ps) = ps.all f) :
    ∀ ps : List (Predicate ρ), (conjunctsOfAll ps).all f = ps.all f
  | [] => rfl
  | p :: ps => by
    rw [conjunctsOfAll, List.all_append, all_conjuncts_eq hf p, all_conjunctsOfAll_eq hf ps,
      List.all_cons]

end

/-- A closure in a predicate is a closure in one of its conjuncts. -/
lemma all_isPushable_conjuncts (p : Predicate ρ) : p.conjuncts.all isPushable = p.isPushable :=
  all_conjuncts_eq arePushable_eq p

variable (E : Entity ρ) (row : ρ)

lemma all_conjuncts (p : Predicate ρ) : (p.conjuncts.all fun q => q.test E row) = p.test E row :=
  all_conjuncts_eq (testAll_eq E row) p

@[simp] lemma test_and (p q : Predicate ρ) :
    (p.and q).test E row = (p.test E row && q.test E row) := by
  rw [and, test, testAll_eq, List.all_append, all_conjuncts, all_conjuncts]

@[simp] lemma test_ofConjuncts (ps : List (Predicate ρ)) :
    (ofConjuncts ps).test E row = ps.all fun p => p.test E row := by
  match ps with
  | [] => rfl
  | [p] => simp [ofConjuncts]
  | p :: q :: ps => exact testAll_eq E row (p :: q :: ps)

/-- The conjuncts may be divided into two parts, whatever tells them apart. -/
lemma test_eq_partition (f : Predicate ρ → Bool) (p : Predicate ρ) :
    p.test E row =
      (((p.conjuncts.partition f).1.all fun q => q.test E row) &&
        (p.conjuncts.partition f).2.all fun q => q.test E row) := by
  rw [← all_conjuncts, List.partition_eq_filter_filter]
  induction p.conjuncts with
  | nil => rfl
  | cons q qs ih =>
    rw [List.all_cons, ih]
    cases h : f q with
    | true => simp [h, Bool.and_assoc]
    | false => simp [h, Bool.and_left_comm]

end Predicate

namespace Restriction

variable {ρ : Type} (E : Entity ρ) (row : ρ)

lemma all_conjuncts (r : Restriction) :
    (r.conjuncts.all fun s => s.holds E row) = r.holds E row := by
  cases r with
  | all rs => rw [conjuncts, holds, allHold_eq]
  | _ => simp [conjuncts]

@[simp] lemma holds_and (r s : Restriction) :
    (r.and s).holds E row = (r.holds E row && s.holds E row) := by
  rw [and, holds, allHold_eq, List.all_append, all_conjuncts, all_conjuncts]

@[simp] lemma holds_ofConjuncts (rs : List Restriction) :
    (ofConjuncts rs).holds E row = rs.all fun r => r.holds E row := by
  match rs with
  | [] => rfl
  | [r] => simp [ofConjuncts]
  | r :: s :: rs => exact allHold_eq E row (r :: s :: rs)

end Restriction
end Pushdown
