import Mathlib.Data.List.Forall2
import Pushdown.Query.Lowering
import Pushdown.Proofs.Conjunctions
import Pushdown.Proofs.Orders
import Pushdown.Store

/-!
# Lowering

What lowering makes of a predicate holds of the same rows, and what it makes of a comparator orders
them in the same way. Both read columns of the entity only, so they do not tell rows of one
identity apart.
-/

namespace Pushdown

variable {ρ : Type} {E : Entity ρ}

/-- Rows of one identity agree in the columns of their entity. -/
lemma Entity.read_eq_of_rowKey_eq {a b : ρ} (h : E.rowKey a = E.rowKey b) {column : String}
    (hcolumn : E.hasColumn column = true) : E.read a column = E.read b column := by
  have hmem : column ∈ E.columns := List.contains_iff_mem.1 hcolumn
  exact List.map_inj_left.1 h column hmem

namespace Lowering

lemma bind_eq_ok {ε α β : Type} {x : Except ε α} {f : α → Except ε β} {b : β}
    (h : x >>= f = .ok b) : ∃ a, x = .ok a ∧ f a = .ok b := by
  cases x with
  | error e => cases h
  | ok a => exact ⟨a, rfl, h⟩

lemma map_eq_ok {ε α β : Type} {x : Except ε α} {f : α → β} {b : β} (h : x.map f = .ok b) :
    ∃ a, x = .ok a ∧ f a = b := by
  cases x with
  | error e => cases h
  | ok a => exact ⟨a, rfl, Except.ok.inj h⟩

lemma hasColumn_of_checkColumn {column : String} {u : Unit} (h : checkColumn E column = .ok u) :
    E.hasColumn column = true := by
  unfold checkColumn at h
  split at h
  · assumption
  · cases h

lemma lowerCondition_ok {used : Nat} {c : ColumnCondition} {r : Restriction × List Binding}
    (h : lowerCondition E used c = .ok r) :
    E.hasColumn c.column = true ∧ ∃ parameters, r.1 = .compare c parameters := by
  unfold lowerCondition at h
  obtain ⟨u, hcolumn, h⟩ := bind_eq_ok h
  obtain ⟨values, -, h⟩ := bind_eq_ok h
  cases h
  exact ⟨hasColumn_of_checkColumn hcolumn, _, rfl⟩

/-- A restriction that states `p` with conditions on columns of the entity. -/
structure States (E : Entity ρ) (r : Restriction) (p : Predicate ρ) : Prop where
  holds_eq : ∀ row, r.holds E row = p.test E row
  test_eq : ∀ {a b}, E.rowKey a = E.rowKey b → p.test E a = p.test E b

namespace States

variable {rs : List Restriction} {ps : List (Predicate ρ)}

lemma all_holds (h : List.Forall₂ (States E) rs ps) (row : ρ) :
    (rs.all fun r => r.holds E row) = ps.all fun p => p.test E row := by
  induction h with
  | nil => rfl
  | cons hr hrs ih => rw [List.all_cons, List.all_cons, hr.holds_eq, ih]

lemma any_holds (h : List.Forall₂ (States E) rs ps) (row : ρ) :
    (rs.any fun r => r.holds E row) = ps.any fun p => p.test E row := by
  induction h with
  | nil => rfl
  | cons hr hrs ih => rw [List.any_cons, List.any_cons, hr.holds_eq, ih]

lemma map_test (h : List.Forall₂ (States E) rs ps) {a b : ρ} (hkey : E.rowKey a = E.rowKey b) :
    (ps.map fun p => p.test E a) = ps.map fun p => p.test E b := by
  induction h with
  | nil => rfl
  | cons hr hrs ih => rw [List.map_cons, List.map_cons, hr.test_eq hkey, ih]

lemma all (h : List.Forall₂ (States E) rs ps) : States E (.all rs) (.all ps) where
  holds_eq row := by
    rw [Restriction.holds, Predicate.test, Restriction.allHold_eq, Predicate.testAll_eq,
      all_holds h row]
  test_eq {a b} hkey := by
    have hmap := congrArg (fun bs => bs.all id) (map_test h hkey)
    simpa [Predicate.test, Predicate.testAll_eq, Function.comp_def] using hmap

lemma any (h : List.Forall₂ (States E) rs ps) : States E (.any rs) (.any ps) where
  holds_eq row := by
    rw [Restriction.holds, Predicate.test, Restriction.anyHolds_eq, Predicate.testAny_eq,
      any_holds h row]
  test_eq {a b} hkey := by
    have hmap := congrArg (fun bs => bs.any id) (map_test h hkey)
    simpa [Predicate.test, Predicate.testAny_eq, Function.comp_def] using hmap

lemma ofConjuncts (h : List.Forall₂ (States E) rs ps) :
    States E (Restriction.ofConjuncts rs) (Predicate.ofConjuncts ps) where
  holds_eq row := by rw [Restriction.holds_ofConjuncts, Predicate.test_ofConjuncts, all_holds h row]
  test_eq {a b} hkey := by
    have hmap := congrArg (fun bs => bs.all id) (map_test h hkey)
    simpa [Function.comp_def] using hmap

end States

mutual

theorem lower_ok (used : Nat) :
    ∀ (p : Predicate ρ) {r}, lower E used p = .ok r → States E r.1 p
  | .always, r, h => by
    cases h
    exact ⟨fun _ => rfl, fun _ => rfl⟩
  | .never, r, h => by
    cases h
    exact ⟨fun _ => rfl, fun _ => rfl⟩
  | .column c, r, h => by
    rw [lower] at h
    obtain ⟨hcolumn, parameters, hr⟩ := lowerCondition_ok h
    refine ⟨fun row => by rw [hr, Restriction.holds, Predicate.test], fun hkey => ?_⟩
    simp only [Predicate.test, ColumnCondition.holds, Entity.read_eq_of_rowKey_eq hkey hcolumn]
  | .all ps, r, h => by
    rw [lower] at h
    obtain ⟨rs, hrs, rfl⟩ := map_eq_ok h
    exact .all (lowerList_ok used ps hrs)
  | .any ps, r, h => by
    rw [lower] at h
    obtain ⟨rs, hrs, rfl⟩ := map_eq_ok h
    exact .any (lowerList_ok used ps hrs)
  | .not p, r, h => by
    rw [lower] at h
    obtain ⟨s, hs, rfl⟩ := map_eq_ok h
    have hstates := lower_ok used p hs
    refine ⟨fun row => ?_, fun hkey => ?_⟩
    · rw [Restriction.holds, Predicate.test, hstates.holds_eq]
    · rw [Predicate.test, Predicate.test, hstates.test_eq hkey]
  | .closure _, r, h => by
    cases h

theorem lowerList_ok (used : Nat) :
    ∀ (ps : List (Predicate ρ)) {rs}, lowerList E used ps = .ok rs →
      List.Forall₂ (States E) rs.1 ps
  | [], rs, h => by
    cases h
    exact .nil
  | p :: ps, rs, h => by
    rw [lowerList] at h
    obtain ⟨⟨r, bindings⟩, hr, h⟩ := bind_eq_ok h
    obtain ⟨⟨rs, more⟩, hrs, h⟩ := bind_eq_ok h
    cases h
    exact .cons (lower_ok used p hr) (lowerList_ok _ ps hrs)

end

/-- Only a conjunction is lowered to one. -/
lemma conjuncts_of_lower {used : Nat} {p : Predicate ρ} (hp : ∀ ps, p ≠ .all ps)
    {r : Restriction × List Binding} (h : lower E used p = .ok r) : r.1.conjuncts = [r.1] := by
  cases p with
  | always =>
    cases h
    rfl
  | never =>
    cases h
    rfl
  | column c =>
    rw [lower] at h
    obtain ⟨-, parameters, hr⟩ := lowerCondition_ok h
    rw [hr]
    rfl
  | all ps => exact absurd rfl (hp ps)
  | any ps =>
    rw [lower] at h
    obtain ⟨rs, -, rfl⟩ := map_eq_ok h
    rfl
  | not p =>
    rw [lower] at h
    obtain ⟨s, -, rfl⟩ := map_eq_ok h
    rfl
  | closure f => cases h

/-- Conjuncts are lowered to a restriction that has some. -/
lemma conjuncts_of_lowerList {used : Nat} {ps : List (Predicate ρ)} (hps : ps ≠ [])
    (hall : ∀ p ∈ ps, ∀ qs, p ≠ .all qs) {rs : List Restriction × List Binding}
    (h : lowerList E used ps = .ok rs) : (Restriction.ofConjuncts rs.1).conjuncts ≠ [] := by
  cases ps with
  | nil => exact absurd rfl hps
  | cons p ps =>
    rw [lowerList] at h
    obtain ⟨r, hr, h⟩ := bind_eq_ok h
    obtain ⟨more, -, h⟩ := bind_eq_ok h
    cases h
    cases hmore : more.1 with
    | nil =>
      simp only [Restriction.ofConjuncts]
      rw [conjuncts_of_lower (hall p List.mem_cons_self) hr]
      exact List.cons_ne_nil _ _
    | cons s more' =>
      simp only [Restriction.ofConjuncts, Restriction.conjuncts]
      exact List.cons_ne_nil _ _

end Lowering

namespace Store

lemma isOrder_orderComparator (order : List OrderTerm) :
    (orderComparator order : Comparator ρ).IsOrder := by
  rw [orderComparator, Comparator.IsOrder, Comparator.areOrders_iff]
  intro k hk
  obtain ⟨t, -, rfl⟩ := List.mem_map.1 hk
  rw [Comparator.IsOrder]
  trivial

lemma compare_orderComparator_append (terms more : List OrderTerm) (a b : ρ) :
    (orderComparator (terms ++ more)).compare E a b =
      ((orderComparator terms).compare E a b).then ((orderComparator more).compare E a b) := by
  simp only [orderComparator, Comparator.compare, List.map_append, Comparator.compareChain_append]

/-- An order by columns of the entity does not tell rows of one identity apart. -/
lemma compare_orderComparator_of_rowKey_eq {order : List OrderTerm}
    (horder : ∀ t ∈ order, E.hasColumn t.column = true) {a b : ρ} (hkey : E.rowKey a = E.rowKey b) :
    (orderComparator order).compare E a b = .eq := by
  induction order with
  | nil => rfl
  | cons t order ih =>
    have hread := Entity.read_eq_of_rowKey_eq hkey (horder t List.mem_cons_self)
    have hrest := ih fun t' ht' => horder t' (List.mem_cons_of_mem _ ht')
    have hsame : (Comparator.column t.column t.direction).compare E a b = .eq := by
      have hself (v : Value) : v.compare v = .eq := Std.ReflCmp.compare_self
      rw [Comparator.compare, hread, hself]
      cases t.direction <;> rfl
    rw [orderComparator, Comparator.compare] at hrest ⊢
    rw [List.map_cons, Comparator.compareChain, hsame, hrest]
    rfl

end Store

namespace Lowering

mutual

/-- If the primary key is a column, the order terms of a comparator order rows by columns, as the
comparator does. -/
theorem orderTerms_ok (hprimary : E.hasColumn E.primaryKey = true) :
    ∀ (c : Comparator ρ) {terms}, orderTerms E c = .ok terms →
      (∀ t ∈ terms, E.hasColumn t.column = true) ∧
        ∀ a b, (Store.orderComparator terms).compare E a b = c.compare E a b
  | .column name direction, terms, h => by
    rw [orderTerms] at h
    obtain ⟨u, hcolumn, rfl⟩ := map_eq_ok h
    refine ⟨List.forall_mem_singleton.2 (hasColumn_of_checkColumn hcolumn), fun a b => ?_⟩
    simp [Store.orderComparator, Comparator.compare, Comparator.compareChain]
  | .natural, terms, h => by
    cases h
    refine ⟨List.forall_mem_singleton.2 hprimary, fun a b => ?_⟩
    simp [Store.orderComparator, Comparator.compare, Comparator.compareChain, Direction.apply]
  | .chain keys, terms, h => by
    rw [orderTerms] at h
    obtain ⟨hcolumns, hcompare⟩ := orderTermsOfChain_ok hprimary keys h
    exact ⟨hcolumns, fun a b => by rw [hcompare, Comparator.compare]⟩
  | .closure _, terms, h => by
    cases h

theorem orderTermsOfChain_ok (hprimary : E.hasColumn E.primaryKey = true) :
    ∀ (keys : List (Comparator ρ)) {terms}, orderTermsOfChain E keys = .ok terms →
      (∀ t ∈ terms, E.hasColumn t.column = true) ∧
        ∀ a b, (Store.orderComparator terms).compare E a b = Comparator.compareChain E a b keys
  | [], terms, h => by
    cases h
    exact ⟨nofun, fun _ _ => rfl⟩
  | key :: keys, terms, h => by
    rw [orderTermsOfChain] at h
    obtain ⟨front, hfront, h⟩ := bind_eq_ok h
    obtain ⟨rest, hrest, h⟩ := bind_eq_ok h
    cases h
    obtain ⟨hcolumns, hcompare⟩ := orderTerms_ok hprimary key hfront
    obtain ⟨hcolumns', hcompare'⟩ := orderTermsOfChain_ok hprimary keys hrest
    refine ⟨List.forall_mem_append.2 ⟨hcolumns, hcolumns'⟩, fun a b => ?_⟩
    rw [Store.compare_orderComparator_append, hcompare, hcompare', Comparator.compareChain]

end

end Lowering
end Pushdown
