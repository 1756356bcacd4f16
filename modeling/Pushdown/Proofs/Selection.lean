import Pushdown.Proofs.Lowering
import Pushdown.Proofs.StandardPasses

/-!
# Selection

What a store answers after criteria or a window have taken an operation in: the rows that it
answered before, filtered, sorted, told apart or cut as the operation says.
-/

namespace Pushdown

namespace Store

variable {ρ : Type} {s : Store ρ} {c : Criteria}

/-- Do all columns that a query names belong to the entity? -/
def KnowsColumns (s : Store ρ) (c : Criteria) : Prop :=
  ∀ column ∈ referencedColumns c, s.entity.hasColumn column = true

/-- A store answers queries on its entity that name columns of it, unless it fails. -/
theorem refusal?_eq_none :
    s.refusal? c = none ↔ s.failure? = none ∧ c.root = s.entity.name ∧ s.KnowsColumns c := by
  unfold refusal? KnowsColumns
  cases s.failure? with
  | some e => simp
  | none =>
    by_cases hroot : c.root = s.entity.name
    · simp [hroot, List.find?_eq_none]
    · simp [hroot]

/-- A store that does not fail refuses a query on its entity for a column that it does not know. -/
lemma refusal?_eq_some {e : StoreError} (hhealthy : s.failure? = none)
    (hroot : c.root = s.entity.name) (h : s.refusal? c = some e) :
    ∃ column ∈ referencedColumns c, s.entity.hasColumn column = false ∧
      e = .unknownColumn s.entity.name column := by
  unfold refusal? at h
  rw [hhealthy] at h
  simp only [hroot, ne_eq, not_true_eq_false, if_false] at h
  obtain ⟨column, hfind, rfl⟩ := Option.map_eq_some_iff.1 h
  refine ⟨column, List.mem_of_find?_eq_some hfind, ?_, rfl⟩
  simpa using List.find?_some hfind

lemma KnowsColumns.order (h : s.KnowsColumns c) :
    ∀ t ∈ c.order, s.entity.hasColumn t.column = true := by
  intro t ht
  apply h
  exact List.mem_append_right _ (List.mem_map_of_mem ht)

lemma mem_referencedColumns_prependOrder {terms : List OrderTerm} {column : String} :
    column ∈ referencedColumns (c.prependOrder terms) ↔
      column ∈ terms.map OrderTerm.column ∨ column ∈ referencedColumns c := by
  simp only [referencedColumns, Criteria.prependOrder, List.map_append, List.mem_append]
  exact or_left_comm

/-- An order by columns of the entity may be added to any query. -/
lemma refusal?_prependOrder (h : s.refusal? c = none) {terms : List OrderTerm}
    (hterms : ∀ t ∈ terms, s.entity.hasColumn t.column = true) :
    s.refusal? (c.prependOrder terms) = none := by
  obtain ⟨hhealthy, hroot, hknows⟩ := refusal?_eq_none.1 h
  refine refusal?_eq_none.2 ⟨hhealthy, hroot, fun column hcolumn => ?_⟩
  rcases mem_referencedColumns_prependOrder.1 hcolumn with hcolumn | hcolumn
  · obtain ⟨t, ht, rfl⟩ := List.mem_map.1 hcolumn
    exact hterms t ht
  · exact hknows column hcolumn

/-- A count names no column to project. -/
lemma mem_referencedColumns_toCount {column : String} (h : column ∈ referencedColumns c.toCount) :
    column ∈ referencedColumns c := by
  unfold referencedColumns at h ⊢
  rw [List.append_assoc] at h ⊢
  exact List.mem_append_right _ h

lemma refusal?_toCount (h : s.refusal? c = none) : s.refusal? c.toCount = none := by
  obtain ⟨hhealthy, hroot, hknows⟩ := refusal?_eq_none.1 h
  exact refusal?_eq_none.2
    ⟨hhealthy, hroot, fun column hcolumn => hknows column (mem_referencedColumns_toCount hcolumn)⟩

/-- The rows of the store that the restriction lets through. -/
def kept (s : Store ρ) (c : Criteria) : List ρ :=
  match c.restriction? with
  | some r => s.rows.filter fun row => r.holds s.entity row
  | none => s.rows

lemma kept_restrict (r : Restriction) (bindings : List Binding) :
    s.kept (c.restrict r bindings) = (s.kept c).filter fun row => r.holds s.entity row := by
  unfold kept Criteria.restrict
  cases c.restriction? with
  | none => rfl
  | some old =>
    simp only [Restriction.holds_and, List.filter_filter]
    simp only [Bool.and_comm]

/-- The same rows under DISTINCT, if the criteria ask for it. -/
def apart (s : Store ρ) (c : Criteria) : List ρ :=
  if c.distinct then s.entity.distinctRows (s.kept c) else s.kept c

lemma select_def (s : Store ρ) (c : Criteria) :
    s.select c =
      if c.order.isEmpty || c.selection == .count then s.apart c
      else (orderComparator c.order).sort s.entity (s.apart c) := rfl

/-- Unless it is asked for a number, a store sorts, be it by no terms at all. -/
lemma select_eq (h : c.selection ≠ .count) :
    s.select c = (orderComparator c.order).sort s.entity (s.apart c) := by
  rw [select_def, beq_eq_false_iff_ne.2 h, Bool.or_false]
  cases horder : c.order with
  | nil =>
    have := (isOrder_orderComparator (ρ := ρ) []).transCmp s.entity
    exact (stableSort_of_tied (fun a b => (orderComparator []).compare s.entity a b)
      (fun _ _ => rfl) (s.apart c)).symm
  | cons t order => rfl

lemma length_select_le (s : Store ρ) (c : Criteria) : (s.select c).length ≤ s.rows.length := by
  have hkept : (s.kept c).length ≤ s.rows.length := by
    unfold kept
    cases c.restriction? with
    | none => exact Nat.le_refl _
    | some r => exact List.length_filter_le _ _
  have hapart : (s.apart c).length ≤ s.rows.length := by
    unfold apart
    split
    · exact Nat.le_trans (firsts_sublist s.entity.rowKey (s.kept c)).length_le hkept
    · exact hkept
  rw [select_def]
  split
  · exact hapart
  · rw [Comparator.length_sort]
    exact hapart

/-- A restriction that does not tell rows of one identity apart goes beneath DISTINCT and order. -/
theorem select_restrict (hselection : c.selection ≠ .count) {r : Restriction}
    {p : Predicate ρ} (hr : Lowering.States s.entity r p) (bindings : List Binding) :
    s.select (c.restrict r bindings) = (s.select c).filter fun row => p.test s.entity row := by
  have := (isOrder_orderComparator (ρ := ρ) c.order).transCmp s.entity
  have hkept : s.kept (c.restrict r bindings) =
      (s.kept c).filter fun row => p.test s.entity row := by
    rw [kept_restrict]
    exact congrArg (fun f => (s.kept c).filter f) (funext hr.holds_eq)
  have hapart : s.apart (c.restrict r bindings) =
      (s.apart c).filter fun row => p.test s.entity row := by
    unfold apart
    rw [hkept, Criteria.restrict]
    cases c.distinct with
    | false => rfl
    | true => exact (filter_firsts s.entity.rowKey (fun _ _ => hr.test_eq) (s.kept c)).symm
  have hselect := select_eq (s := s) (c := c.restrict r bindings) hselection
  rw [hselect, select_eq hselection, hapart, Comparator.sort_eq_stableSort,
    Comparator.sort_eq_stableSort, filter_stableSort]
  rfl

theorem select_prependOrder (hselection : c.selection ≠ .count) (terms : List OrderTerm) :
    s.select (c.prependOrder terms) = (orderComparator terms).sort s.entity (s.select c) := by
  have hselect := select_eq (s := s) (c := c.prependOrder terms) hselection
  rw [hselect, select_eq hselection,
    Comparator.sort_sort _ (isOrder_orderComparator c.order) (isOrder_orderComparator terms)]
  apply Comparator.sort_congr
  intro a b
  rw [Comparator.compare_andThen, Criteria.prependOrder, compare_orderComparator_append]

/-- An order by columns leaves the first row of each identity the first, so DISTINCT may go beneath
it. -/
theorem select_setDistinct (hselection : c.selection ≠ .count) (hc : s.KnowsColumns c) :
    s.select (c.setDistinct true) = s.entity.distinctRows (s.select c) := by
  have := (isOrder_orderComparator (ρ := ρ) c.order).transCmp s.entity
  have hsort := firsts_stableSort s.entity.rowKey
    (fun a b => compare_orderComparator_of_rowKey_eq (a := a) (b := b) hc.order) (s.apart c)
  have hapart : s.apart (c.setDistinct true) = s.entity.distinctRows (s.apart c) := by
    unfold apart
    cases c.distinct with
    | false => rfl
    | true => exact (firsts_firsts s.entity.rowKey (s.kept c)).symm
  have hselect := select_eq (s := s) (c := c.setDistinct true) hselection
  rw [hselect, select_eq hselection, hapart, Comparator.sort_eq_stableSort,
    Comparator.sort_eq_stableSort, Entity.distinctRows, Entity.distinctRows, hsort]
  rfl

/-- A number is asked for without an order, which would not change it. -/
lemma length_select_toCount (s : Store ρ) (c : Criteria) :
    (s.select c.toCount).length = (s.select c).length := by
  have happart : s.select c.toCount = s.apart c := by
    rw [select_def]
    exact if_pos (Bool.or_true _)
  rw [happart, select_def]
  split
  · rfl
  · rw [Comparator.length_sort]

section Windows

variable (q : Query) (n : UInt64) {rows : List ρ}

/-- Skipping on stops at the greatest count, where it has passed all rows. -/
theorem window_skipping (hrows : rows.length < UInt64.size) :
    window (q.skipping n) rows = (window q rows).drop n.toNat := by
  have hsize : rows.length ≤ UInt64.size - 1 := Nat.le_sub_one_of_lt hrows
  have hdrop : rows.drop (Count.add q.firstResult n).toNat =
      (rows.drop q.firstResult.toNat).drop n.toNat := by
    rw [Count.toNat_add, List.drop_drop]
    by_cases hfits : q.firstResult.toNat + n.toNat ≤ UInt64.size - 1
    · rw [Nat.min_eq_left hfits]
    · rw [Nat.min_eq_right (by omega), List.drop_eq_nil_of_le hsize,
        List.drop_eq_nil_of_le (by omega)]
  unfold window Query.skipping
  cases hmost : q.maxResults? with
  | none => simp only [Query.setFirstResult, hmost, hdrop]
  | some most =>
    simp only [Query.setFirstResult, Query.setMaxResults, hmost, hdrop, Count.toNat_sub,
      List.drop_take]

theorem window_limitedTo : window (q.limitedTo n) rows = (window q rows).take n.toNat := by
  unfold window Query.limitedTo
  cases hmost : q.maxResults? with
  | none => rfl
  | some most =>
    simp only [Query.setMaxResults, Count.toNat_min, List.take_take, Nat.min_comm]

end Windows

end Store
end Pushdown
