import Pushdown.Proofs.Squashing

/-!
# Flattening

The conjuncts of a predicate are the leaves of its nested conjunctions, from left to right. Only
conjunctions are entered on the way to a leaf: one below a disjunction or a negation belongs to the
leaf that holds it. A leaf has an address, and to stand further to the right is to have the greater
address in lexicographic order.
-/

namespace Pushdown

namespace Predicate

variable {ρ : Type}

/-- The address of a leaf says which members to enter, from the outermost conjunction inwards. -/
inductive HasLeaf : Predicate ρ → List Nat → Predicate ρ → Prop
  | here {p : Predicate ρ} (h : ∀ ps, p ≠ all ps) : HasLeaf p [] p
  | member {ps : List (Predicate ρ)} {i : Nat} {p q : Predicate ρ} {address : List Nat}
      (hp : ps[i]? = some p) (hq : HasLeaf p address q) : HasLeaf (all ps) (i :: address) q

/-- The list shows every leaf with its address, from left to right. -/
structure ListsLeaves (p : Predicate ρ) (listed : List (List Nat × Predicate ρ)) : Prop where
  ascending : listed.Pairwise fun a b => a.1 < b.1
  mem_iff : ∀ address q, (address, q) ∈ listed ↔ p.HasLeaf address q

variable {p q : Predicate ρ} {ps : List (Predicate ρ)} {address : List Nat}

lemma hasLeaf_iff_of_ne_all (h : ∀ ps, p ≠ all ps) :
    p.HasLeaf address q ↔ address = [] ∧ q = p := by
  constructor
  · intro hleaf
    cases hleaf with
    | here _ => exact ⟨rfl, rfl⟩
    | member _ _ => exact absurd rfl (h _)
  · rintro ⟨rfl, rfl⟩
    exact .here h

lemma not_hasLeaf_all_nil : ¬(all ps).HasLeaf [] q := by
  intro hleaf
  cases hleaf with
  | here h => exact h ps rfl

lemma hasLeaf_all_cons_iff {i : Nat} :
    (all ps).HasLeaf (i :: address) q ↔ ∃ p, ps[i]? = some p ∧ p.HasLeaf address q := by
  constructor
  · intro hleaf
    cases hleaf with
    | member hp hq => exact ⟨_, hp, hq⟩
  · rintro ⟨p, hp, hq⟩
    exact .member hp hq

/-- The address of a leaf once another member stands in front of the one that it enters. -/
def shifted (address : List Nat) : List Nat := address.modifyHead (· + 1)

lemma shifted_lt_shifted {a b : List Nat} (h : a < b) : shifted a < shifted b := by
  cases b with
  | nil => exact absurd h (List.not_lt_nil a)
  | cons j b =>
    cases a with
    | nil => exact List.nil_lt_cons (j + 1) b
    | cons i a =>
      apply List.cons_lt_cons_iff.2
      exact (List.cons_lt_cons_iff.1 h).imp Nat.succ_lt_succ (And.imp_left (congrArg (· + 1)))

lemma shifted_eq_nil_iff : shifted address = [] ↔ address = [] := by
  cases address <;> simp [shifted]

lemma shifted_ne_cons_zero (rest : List Nat) : shifted address ≠ 0 :: rest := by
  cases address <;> simp [shifted]

lemma shifted_eq_cons_succ_iff {i : Nat} {rest : List Nat} :
    shifted address = (i + 1) :: rest ↔ address = i :: rest := by
  cases address <;> simp [shifted]

namespace ListsLeaves

variable {listed others : List (List Nat × Predicate ρ)}

lemma of_ne_all (h : ∀ ps, p ≠ all ps) : p.ListsLeaves [([], p)] where
  ascending := List.pairwise_singleton _ _
  mem_iff address q := by
    rw [hasLeaf_iff_of_ne_all h, List.mem_singleton, Prod.mk.injEq]

lemma nil_notMem (h : (all ps).ListsLeaves listed) : ([], q) ∉ listed :=
  mt (h.mem_iff [] q).1 not_hasLeaf_all_nil

lemma nil : (all [] : Predicate ρ).ListsLeaves [] where
  ascending := .nil
  mem_iff address q := by
    cases address with
    | nil => exact iff_of_false List.not_mem_nil not_hasLeaf_all_nil
    | cons i address => simp [hasLeaf_all_cons_iff]

/-- The leaves of the first member stand in front of all others. -/
lemma cons (hp : p.ListsLeaves listed) (hps : (all ps).ListsLeaves others) :
    (all (p :: ps)).ListsLeaves
      (listed.map (Prod.map (0 :: ·) id) ++ others.map (Prod.map shifted id)) where
  ascending := by
    refine List.pairwise_append.2 ⟨?_, ?_, ?_⟩
    · exact List.pairwise_map.2 (hp.ascending.imp fun h => List.cons_lt_cons_iff.2 (.inr ⟨rfl, h⟩))
    · exact List.pairwise_map.2 (hps.ascending.imp shifted_lt_shifted)
    · intro a ha b hb
      obtain ⟨⟨first, q⟩, -, rfl⟩ := List.mem_map.1 ha
      obtain ⟨⟨second, r⟩, hr, rfl⟩ := List.mem_map.1 hb
      cases second with
      | nil => exact absurd hr hps.nil_notMem
      | cons i rest => exact List.cons_lt_cons_iff.2 (.inl i.succ_pos)
  mem_iff address q := by
    simp only [List.mem_append, List.mem_map, Prod.exists, Prod.map_apply, id_eq, Prod.mk.injEq]
    -- An address enters no member, the first one, or one of those behind it.
    match address with
    | [] => simp [shifted_eq_nil_iff, hps.nil_notMem, not_hasLeaf_all_nil]
    | 0 :: rest => simp [shifted_ne_cons_zero, hasLeaf_all_cons_iff, hp.mem_iff]
    | (i + 1) :: rest =>
      simp [shifted_eq_cons_succ_iff, hasLeaf_all_cons_iff, hps.mem_iff]

end ListsLeaves

mutual

/-- The conjuncts are all leaves of nested conjunctions, from left to right. -/
theorem exists_listsLeaves :
    ∀ p : Predicate ρ, ∃ listed, p.ListsLeaves listed ∧ listed.map Prod.snd = p.conjuncts
  | always | never | column _ | any _ | not _ | closure _ => ⟨_, .of_ne_all nofun, rfl⟩
  | all ps => by
    rw [conjuncts]
    exact exists_listsLeaves_all ps

theorem exists_listsLeaves_all : ∀ ps : List (Predicate ρ),
    ∃ listed, (all ps).ListsLeaves listed ∧ listed.map Prod.snd = conjunctsOfAll ps
  | [] => ⟨[], .nil, rfl⟩
  | p :: ps => by
    obtain ⟨listed, hlisted, hp⟩ := exists_listsLeaves p
    obtain ⟨others, hothers, hps⟩ := exists_listsLeaves_all ps
    -- The addresses of the others change, the order in which their leaves stand does not.
    refine ⟨_, hlisted.cons hothers, ?_⟩
    rw [conjunctsOfAll, ← hp, ← hps]
    simp [Function.comp_def]

end

protected lemma and_assoc (p q r : Predicate ρ) : (p.and q).and r = p.and (q.and r) := by
  calc
    (p.and q).and r = all ((p.and q).conjuncts ++ r.conjuncts) := rfl
    _ = all (p.conjuncts ++ (q.and r).conjuncts) := by
      rw [conjuncts_and, conjuncts_and, List.append_assoc]
    _ = p.and (q.and r) := rfl

end Predicate

namespace Fusion

variable {ρ : Type}

/-- A run of filters comes to one predicate, which holds where those of all the filters do. -/
lemma exists_foldr_filters (E : Entity ρ) {ps : List (Predicate ρ)} (h : ps ≠ []) :
    ∃ r, (ps.map some).foldr (filters E).combine (filters E).neutral = some r ∧
      ∀ row, r.test E row = ps.all fun p => p.test E row := by
  induction ps with
  | nil => exact absurd rfl h
  | cons p ps ih =>
    rw [List.map_cons, List.foldr_cons]
    by_cases hps : ps = []
    · subst hps
      exact ⟨p, (filters_sound E).right _ rfl, fun row => by simp⟩
    · obtain ⟨pending, hpending, htest⟩ := ih hps
      obtain ⟨r, hr, hboth⟩ := test_bothHold E p pending
      rw [hpending]
      exact ⟨r, hr, fun row => by rw [hboth, htest, List.all_cons]⟩

end Fusion

namespace Predicate

open Fusion (filters)

variable {ρ : Type} (E : Entity ρ)

/-- The conjuncts of a predicate are the leaves of its nested conjunctions in order. They say what
the predicate says, hold a closure just if it does, and may be put together again, unless there are
none: then TRUE stands for the conjunction. Conjunctions with flat members are associative, and the
filters of a run hold together where each of them does. -/
theorem conjuncts_flatten_faithfully :
    (∀ p : Predicate ρ,
      (∀ q ∈ p.conjuncts, ∀ ps, q ≠ all ps) ∧
      (∃ listed, p.ListsLeaves listed ∧ listed.map Prod.snd = p.conjuncts) ∧
      (∀ row, p.test E row = true ↔ ∀ q ∈ p.conjuncts, q.test E row = true) ∧
      (∀ row, (ofConjuncts p.conjuncts).test E row = p.test E row) ∧
      (p.conjuncts ≠ [] → (ofConjuncts p.conjuncts).conjuncts = p.conjuncts) ∧
      (p.isPushable = true ↔ ∀ q ∈ p.conjuncts, q.isPushable = true)) ∧
    (∀ (p q : Predicate ρ) (row : ρ),
      (p.and q).test E row = (p.test E row && q.test E row)) ∧
    (∀ p q r : Predicate ρ, (p.and q).and r = p.and (q.and r)) ∧
    ∀ ps : List (Predicate ρ), ps ≠ [] →
      ∃ r, (ps.map some).foldr (filters E).combine (filters E).neutral = some r ∧
        ∀ row, r.test E row = ps.all fun p => p.test E row := by
  refine ⟨fun p => ⟨fun _ hq => ne_all_of_mem_conjuncts p hq, exists_listsLeaves p, fun row => ?_,
    fun row => ?_, fun h => ?_, ?_⟩, fun p q row => test_and E row p q, Predicate.and_assoc,
    fun _ h => Fusion.exists_foldr_filters E h⟩
  · rw [← all_conjuncts, List.all_eq_true]
  · rw [test_ofConjuncts, all_conjuncts]
  · exact conjuncts_ofConjuncts h fun _ hq => ne_all_of_mem_conjuncts p hq
  · rw [← all_isPushable_conjuncts, List.all_eq_true]

/-- A conjunction without members adds no conjunct, and one below a negation is not entered. -/
theorem conjuncts_flatten_faithfully_records :
    let E := Entity.ofColumns "User" "id" ["id", "age"]
    let adult : Predicate Record := .column ⟨"age", .gte (.int 18)⟩
    let excluded : Predicate Record := .not (.all [.all [adult], .closure ⟨0, fun _ => true⟩])
    let p : Predicate Record := .all [.all [], adult, .all [.all [excluded], .always]]
    excluded ∈ p.conjuncts ∧ (∀ ps, excluded ≠ .all ps) ∧ p.conjuncts ≠ [] ∧
      (ofConjuncts p.conjuncts).conjuncts = [adult, excluded, .always] ∧
      [.always, p, .always] ≠ [] ∧
      ∃ r, (([.always, p, .always] : List (Predicate Record)).map some).foldr
          (filters E).combine (filters E).neutral = some r ∧
        ∀ row, r.test E row = p.test E row := by
  intro E adult excluded p
  obtain ⟨hconjuncts, -, -, hfilters⟩ := conjuncts_flatten_faithfully E
  obtain ⟨hleaf, -, -, -, hagain, -⟩ := hconjuncts p
  have hmem : excluded ∈ p.conjuncts := .tail _ (.head _)
  have hne : p.conjuncts ≠ [] := List.ne_nil_of_mem hmem
  obtain ⟨r, hr, htest⟩ := hfilters [.always, p, .always] nofun
  refine ⟨hmem, hleaf excluded hmem, hne, hagain hne, nofun, r, hr, fun row => ?_⟩
  simp [htest, test]

end Predicate
end Pushdown
