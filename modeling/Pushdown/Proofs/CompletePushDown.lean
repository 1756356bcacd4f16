import Pushdown.Proofs.ExactLowering
import Pushdown.Proofs.FilterSplitting
import Pushdown.Proofs.NamedColumns

/-!
# Complete push-down

Filters, sorts and DISTINCT whose arguments a query can state go into its criteria one after the
other, and skips and limits behind them into the window, until nothing is left. The one exception is
a filter by a conjunction without members. It asks for nothing, but it is taken for one without a
conjunct that could go in, and stays with all that stands behind it.
-/

namespace Pushdown

variable {ρ : Type} {E : Entity ρ}

namespace Predicate

/-- No leaf of the predicate is at fault, so it has a form in a query over `E`. -/
def IsStatable (E : Entity ρ) (p : Predicate ρ) : Prop := ∀ leaf ∈ p.leaves, ∀ e, ¬ Fault E leaf e

lemma isStatable_of_lower {used : Nat} {p : Predicate ρ} {r : Restriction × List Binding}
    (h : Lowering.lower E used p = .ok r) : p.IsStatable E :=
  Lowering.lower_ok_iff.1 ⟨r, h⟩

lemma IsStatable.and {p q : Predicate ρ} (hp : p.IsStatable E) (hq : q.IsStatable E) :
    (p.and q).IsStatable E := by
  unfold IsStatable
  rw [Predicate.and, leaves, leavesOfEach_append, leavesOfEach_conjuncts, leavesOfEach_conjuncts]
  exact List.forall_mem_append.2 ⟨hp, hq⟩

lemma IsStatable.isPushable {p : Predicate ρ} (h : p.IsStatable E) : p.isPushable = true :=
  (closure_notMem_leaves p).1 fun hclosure => h _ hclosure _ .closure

/-- All conjuncts of a predicate without closures may go in. -/
lemma pushed_of_isPushable {p : Predicate ρ} (h : p.isPushable = true) :
    p.pushed = p.conjuncts ∧ p.kept = [] := by
  rw [← all_isPushable_conjuncts, List.all_eq_true] at h
  constructor
  · exact List.filter_eq_self.2 h
  · exact List.filter_eq_nil_iff.2 fun q hq => by simp [h q hq]

lemma conjuncts_and_ne_nil {p q : Predicate ρ} (hp : p.conjuncts ≠ []) :
    (p.and q).conjuncts ≠ [] := by
  rw [conjuncts_and]
  exact List.append_ne_nil_of_left_ne_nil hp _

end Predicate

namespace Comparator

/-- A comparator that holds no closure and compares by columns of `E`. -/
structure IsStatable (E : Entity ρ) (c : Comparator ρ) : Prop where
  isPushable : c.isPushable = true
  column_mem : ∀ name direction, column name direction ∈ c.keys → name ∈ E.columns

lemma isStatable_natural : (natural : Comparator ρ).IsStatable E :=
  ⟨rfl, by simp [keys]⟩

mutual

theorem isPushable_iff : ∀ c : Comparator ρ, c.isPushable = true ↔ ∀ f, closure f ∉ c.keys
  | column .. | natural | closure _ => by simp [isPushable, keys]
  | chain ks => arePushable_iff ks

theorem arePushable_iff :
    ∀ ks : List (Comparator ρ), arePushable ks = true ↔ ∀ f, closure f ∉ keysOfChain ks
  | [] => by simp [arePushable, keysOfChain]
  | k :: ks => by
    rw [arePushable, keysOfChain, Bool.and_eq_true, isPushable_iff k, arePushable_iff ks]
    simp [forall_and]

end

lemma IsStatable.andThen {c d : Comparator ρ} (hc : c.IsStatable E) (hd : d.IsStatable E) :
    (c.andThen d).IsStatable E where
  isPushable := by
    refine (isPushable_iff _).2 fun f hf => ?_
    exact (mem_keys_andThen hf).elim ((isPushable_iff c).1 hc.isPushable f)
      ((isPushable_iff d).1 hd.isPushable f)
  column_mem name direction hk :=
    (mem_keys_andThen hk).elim (hc.column_mem name direction) (hd.column_mem name direction)

mutual

theorem isOrder_of_isPushable : ∀ c : Comparator ρ, c.isPushable = true → c.IsOrder
  | column .., _ | natural, _ => by simp [IsOrder]
  | chain ks, h => areOrders_of_arePushable ks h

theorem areOrders_of_arePushable : ∀ ks : List (Comparator ρ), arePushable ks = true → AreOrders ks
  | [], _ => trivial
  | k :: ks, h => by
    rw [arePushable, Bool.and_eq_true] at h
    exact ⟨isOrder_of_isPushable k h.1, areOrders_of_arePushable ks h.2⟩

end

end Comparator

namespace Lowering

mutual

theorem exists_orderTerms : ∀ c : Comparator ρ, c.IsStatable E → ∃ terms, orderTerms E c = .ok terms
  | .column name direction, h => by
    have hknown : checkColumn E name = .ok () :=
      if_pos (List.contains_iff_mem.2 (h.column_mem name direction (List.mem_singleton_self _)))
    rw [orderTerms, hknown]
    exact ⟨_, rfl⟩
  | .natural, _ => ⟨_, rfl⟩
  | .chain ks, h => exists_orderTermsOfChain ks h.isPushable h.column_mem
  | .closure _, h => nomatch h.isPushable

theorem exists_orderTermsOfChain : ∀ ks : List (Comparator ρ), Comparator.arePushable ks = true →
    (∀ name direction, .column name direction ∈ Comparator.keysOfChain ks → name ∈ E.columns) →
    ∃ terms, orderTermsOfChain E ks = .ok terms
  | [], _, _ => ⟨_, rfl⟩
  | k :: ks, hpushable, hcolumns => by
    rw [Comparator.arePushable, Bool.and_eq_true] at hpushable
    obtain ⟨terms, hterms⟩ := exists_orderTerms k ⟨hpushable.1, fun name direction hk =>
      hcolumns name direction (List.mem_append_left _ hk)⟩
    obtain ⟨more, hmore⟩ := exists_orderTermsOfChain ks hpushable.2 fun name direction hk =>
      hcolumns name direction (List.mem_append_right _ hk)
    rw [orderTermsOfChain, hterms, hmore]
    exact ⟨_, rfl⟩

end

end Lowering

namespace Operation

/-- A filter, a sort or DISTINCT that a query over `E` can state. -/
inductive IsStatable (E : Entity ρ) : Operation ρ → Prop
  | filter {p : Predicate ρ} (hpushable : p.isPushable = true)
      (hlower : ∃ used r, Lowering.lower E used p = .ok r) : IsStatable E (filter E p)
  | sorted : IsStatable E (sorted E)
  | sortedBy {c : Comparator ρ} (hc : c.IsStatable E) : IsStatable E (sortedBy E c)
  | distinct : IsStatable E (distinct E)

/-- A skip or a limit. -/
inductive Cuts : Operation ρ → Prop
  | skip (n : UInt64) : Cuts (skip n)
  | limit (n : UInt64) : Cuts (limit n)

/-- A filter by a conjunction that has no members, however deep one looks. -/
def IsEmptyFilter (op : Operation ρ) : Prop := ∃ p, op.predicate? = some p ∧ p.conjuncts = []

lemma not_isEmptyFilter_of_predicate? {op : Operation ρ}
    (h : ∀ p, op.predicate? = some p → p.conjuncts ≠ []) : ¬ op.IsEmptyFilter := by
  rintro ⟨p, hp, hnone⟩
  exact h p hp hnone

lemma not_isEmptyFilter_filter {p : Predicate ρ} (h : p.conjuncts ≠ []) :
    ¬ (filter E p).IsEmptyFilter := by
  refine not_isEmptyFilter_of_predicate? fun q hq => ?_
  obtain rfl : p = q := Option.some.inj hq
  exact h

/-- An operation that a query over `E` can state, and that is no filter without conjuncts. -/
def GoesIn (E : Entity ρ) (op : Operation ρ) : Prop := op.IsStatable E ∧ ¬ op.IsEmptyFilter

lemma IsStatable.of_predicate? {op : Operation ρ} (h : op.IsStatable E) {p : Predicate ρ}
    (hp : op.predicate? = some p) : p.IsStatable E := by
  cases h with
  | filter hpushable hlower =>
    obtain rfl := Option.some.inj hp
    obtain ⟨used, r, hr⟩ := hlower
    exact Predicate.isStatable_of_lower hr
  | sorted | sortedBy | distinct => cases hp

lemma IsStatable.of_comparator? {op : Operation ρ} (h : op.IsStatable E) {c : Comparator ρ}
    (hc : op.comparator? = some c) : c.IsStatable E := by
  cases h with
  | sortedBy hc' =>
    obtain rfl := Option.some.inj hc
    exact hc'
  | filter | sorted | distinct => cases hc

lemma IsStatable.kind_ne {op : Operation ρ} (h : op.IsStatable E) :
    op.kind ≠ .skip ∧ op.kind ≠ .limit := by
  cases h <;> exact ⟨nofun, nofun⟩

lemma IsStatable.selects {op : Operation ρ} (h : op.IsStatable E) : op.Selects E := by
  cases h with
  | filter => exact .filter _
  | sorted => exact .sorted
  | sortedBy hc => exact .sortedBy (Comparator.isOrder_of_isPushable _ hc.isPushable)
  | distinct => exact .distinct

end Operation

namespace Verdict

open Operation

variable {op : Operation ρ}

lemma onFilter_eq {p : Predicate ρ} (hp : op.predicate? = some p) {c : Criteria}
    (hc : c.windowed = false) : onFilter E op c = onConjuncts E c p.pushed p.kept := by
  unfold onFilter
  simp only [hc, hp, Predicate.partition_conjuncts]

/-- A filter without conjuncts is declined. -/
lemma onCriteria_of_isEmptyFilter (h : op.IsStatable E) (hempty : op.IsEmptyFilter)
    (c : Criteria) : onCriteria E op c = .declines := by
  obtain ⟨p, hp, hnone⟩ := hempty
  have hpushed : p.pushed = [] := by rw [Predicate.pushed, hnone]; rfl
  cases h with
  | @filter q hpushable hlower =>
    change onFilter E (filter E q) c = _
    cases hc : c.windowed with
    | true =>
      unfold onFilter
      rw [hc]
    | false =>
      rw [onFilter_eq hp hc, hpushed]
      rfl
  | sorted | sortedBy | distinct => cases hp

lemma exists_onSort (h : (op.comparator?.getD .natural).IsStatable E) {c : Criteria}
    (hc : c.windowed = false) :
    ∃ c', onSort E op c = .absorbs c' ∧ c'.windowed = false := by
  obtain ⟨terms, hterms⟩ := Lowering.exists_orderTerms _ h
  refine ⟨c.prependOrder terms, ?_, hc⟩
  simp only [onSort, hc, h.isPushable, hterms]
  rfl

lemma exists_onFilter {p : Predicate ρ} (hp : op.predicate? = some p) (h : p.IsStatable E)
    (hsome : p.conjuncts ≠ []) {c : Criteria} (hc : c.windowed = false) :
    ∃ c', onFilter E op c = .absorbs c' ∧ c'.windowed = false := by
  obtain ⟨hpushed, hkept⟩ := Predicate.pushed_of_isPushable h.isPushable
  have hstatable : ∀ leaf ∈ Predicate.leavesOfEach p.conjuncts, ∀ e, ¬ Fault E leaf e := by
    rwa [Predicate.leavesOfEach_conjuncts]
  have hlowers : ∃ r, Lowering.lowerList E c.parameters.length p.conjuncts = .ok r :=
    Lowering.lowerList_ok_iff.2 hstatable
  obtain ⟨lowered, hlowered⟩ := hlowers
  refine ⟨c.restrict (Restriction.ofConjuncts lowered.1) lowered.2, ?_, hc⟩
  rw [onFilter_eq hp hc, hpushed, hkept]
  simp only [onConjuncts, List.isEmpty_eq_false_iff.2 hsome, hlowered]
  rfl

/-- Any other statable operation goes into criteria that no window lies over. -/
lemma onCriteria_of_goesIn (h : op.GoesIn E) {c : Criteria} (hc : c.windowed = false) :
    ∃ c', onCriteria E op c = .absorbs c' ∧ c'.windowed = false := by
  obtain ⟨hstatable, hsome⟩ := h
  cases id hstatable with
  | @filter p =>
    exact exists_onFilter rfl (hstatable.of_predicate? rfl) (fun hnone => hsome ⟨p, rfl, hnone⟩) hc
  | sorted => exact exists_onSort Comparator.isStatable_natural hc
  | sortedBy hc' => exact exists_onSort hc' hc
  | distinct =>
    refine ⟨c.setDistinct true, ?_, hc⟩
    change onDistinct _ c = _
    simp only [onDistinct, hc]
    rfl

lemma onCriteria_of_cuts (h : op.Cuts) (c : Criteria) : onCriteria E op c = .declines := by
  cases h <;> rfl

lemma exists_onQuery (h : op.Cuts) (q : Query) : ∃ q', onQuery op q = .absorbs q' := by
  cases h <;> exact ⟨_, rfl⟩

lemma onQuery_of_isStatable (h : op.IsStatable E) (q : Query) : onQuery op q = .declines := by
  cases h <;> rfl

end Verdict

namespace Registry

open Operation

/-- Statable operations go in, up to the first filter without conjuncts or to the end. -/
lemma absorbCriteria_append {front rest : List (Operation ρ)}
    (hfront : ∀ op ∈ front, op.GoesIn E)
    (hrest : ∀ c, Absorption.Halts (Verdict.onCriteria E) rest c) {c : Criteria}
    (hc : c.windowed = false) :
    let a := absorbCriteria E (front ++ rest) c
    a.left = rest ∧ a.absorbed = front.length ∧ a.residual? = none := by
  intro a
  obtain ⟨c', -, habsorb⟩ := Absorption.absorb_append (P := fun c : Criteria => c.windowed = false)
    (fun op hop c hc => Verdict.onCriteria_of_goesIn (hfront op hop) hc) rest c hc
  obtain ⟨hidle, hwhole⟩ := Absorption.halts_iff.1 (hrest c')
  have hleft := (hrest c').unchanged.1
  simp only [a, absorbCriteria, habsorb, hidle]
  exact ⟨hleft, rfl, hwhole⟩

/-- Behind statable operations, the query pass works on what the criteria pass does not take. -/
lemma merge_append {front rest : List (Operation ρ)}
    (hfront : ∀ op ∈ front, op.GoesIn E)
    (hrest : ∀ c, Absorption.Halts (Verdict.onCriteria E) rest c) {q : Query}
    (hq : q.criteria.windowed = false) :
    let p := (standard E).merge (front ++ rest) q
    ∃ q', p.operations = (absorbQuery rest q').left ∧
      p.outcome.removed = front.length + (absorbQuery rest q').absorbed ∧
      p.outcome.replaced = (absorbQuery rest q').residual?.toList.length := by
  intro p
  obtain ⟨hleft, habsorbed, hresidual⟩ := absorbCriteria_append hfront hrest hq
  obtain ⟨hoperations, -, hremoved, hreplaced⟩ := merge_standard E (front ++ rest) q
  rw [hleft] at hoperations hremoved hreplaced
  rw [habsorbed] at hremoved
  rw [hresidual, Option.toList_none, List.length_nil, Nat.zero_add] at hreplaced
  exact ⟨_, hoperations, hremoved, hreplaced⟩

/-- Skips and limits go into any query. -/
lemma absorbQuery_of_cuts {back : List (Operation ρ)} (hback : ∀ op ∈ back, op.Cuts) (q : Query) :
    let b := absorbQuery back q
    b.left = [] ∧ b.absorbed = back.length ∧ b.residual? = none := by
  intro b
  have hgoes : ∀ op ∈ back, ∀ q : Query, True → ∃ q', Verdict.onQuery op q = .absorbs q' ∧ True :=
    fun op hop q _ => (Verdict.exists_onQuery (hback op hop) q).imp fun _ h => ⟨h, trivial⟩
  obtain ⟨q', -, habsorb⟩ := Absorption.absorb_append (P := fun _ => True) hgoes [] q trivial
  rw [List.append_nil] at habsorb
  simp only [b, absorbQuery, habsorb]
  exact ⟨rfl, rfl, rfl⟩

/-- Statable operations, and skips and limits behind them, are absorbed to the last one. -/
lemma merge_of_isStatable {front back : List (Operation ρ)}
    (hfront : ∀ op ∈ front, op.GoesIn E) (hback : ∀ op ∈ back, op.Cuts)
    {q : Query} (hq : q.criteria.windowed = false) :
    let p := (standard E).merge (front ++ back) q
    p.operations = [] ∧ p.outcome.removed = front.length + back.length ∧
      p.outcome.replaced = 0 := by
  intro p
  have hhalts (c : Criteria) : Absorption.Halts (Verdict.onCriteria E) back c := by
    cases back with
    | nil => trivial
    | cons op back =>
      rw [Absorption.Halts, Verdict.onCriteria_of_cuts (hback op List.mem_cons_self)]
      rfl
  obtain ⟨q', hoperations, hremoved, hreplaced⟩ := merge_append hfront hhalts hq
  obtain ⟨hleft, habsorbed, hresidual⟩ := absorbQuery_of_cuts hback q'
  rw [hleft] at hoperations
  rw [habsorbed] at hremoved
  rw [hresidual] at hreplaced
  exact ⟨hoperations, hremoved, hreplaced⟩

/-- A filter without conjuncts is left, with everything behind it. -/
lemma merge_of_isEmptyFilter {before : List (Operation ρ)} {op : Operation ρ}
    (hbefore : ∀ op ∈ before, op.GoesIn E) (hop : op.IsStatable E) (hempty : op.IsEmptyFilter)
    (after : List (Operation ρ)) {q : Query} (hq : q.criteria.windowed = false) :
    let p := (standard E).merge (before ++ op :: after) q
    p.operations = op :: after ∧ p.outcome.removed = before.length ∧ p.outcome.replaced = 0 := by
  intro p
  have hhalts (c : Criteria) : Absorption.Halts (Verdict.onCriteria E) (op :: after) c := by
    rw [Absorption.Halts, Verdict.onCriteria_of_isEmptyFilter hop hempty]
    rfl
  have hhalts' (q : Query) : Absorption.Halts Verdict.onQuery (op :: after) q := by
    rw [Absorption.Halts, Verdict.onQuery_of_isStatable hop]
    rfl
  obtain ⟨q', hoperations, hremoved, hreplaced⟩ := merge_append hbefore hhalts hq
  have hleft := (hhalts' q').unchanged.1
  obtain ⟨hidle, hwhole⟩ := Absorption.halts_iff.1 (hhalts' q')
  refine ⟨hoperations.trans hleft, ?_, ?_⟩
  · rw [hremoved, absorbQuery, hidle, Nat.add_zero]
  · rw [hreplaced, absorbQuery, hwhole]
    rfl

end Registry

namespace Fusion

variable {ν : Type}

/-- A fusion does nothing where it finds no part to fuse. -/
lemma squash_of_part?_eq_none {f : Fusion ρ ν} (hneutral : f.isNeutral f.neutral = true)
    {ops : List (Operation ρ)} (h : ∀ op ∈ ops, f.part? op = none) : f.squash ops = ops := by
  have hscan : f.scan ops = (f.neutral, ops) := by
    induction ops with
    | nil => rfl
    | cons op ops ih =>
      obtain ⟨hop, hops⟩ := List.forall_mem_cons.1 h
      rw [scan, ih hops, hop]
      simp only [flush_of_neutral hneutral]
  rw [squash, hscan]
  exact flush_of_neutral hneutral ops

/-- Two predicates come to one of them, where the other is TRUE, or to their conjunction. -/
lemma mem_bothHold {v w : Option (Predicate ρ)} {r : Predicate ρ} (h : r ∈ bothHold v w) :
    r ∈ v ∨ r ∈ w ∨ ∃ p ∈ v, ∃ q ∈ w, r = p.and q := by
  unfold bothHold at h
  split at h
  · cases w with
    | none => exact .inl h
    | some q => exact .inr (.inl h)
  · cases v with
    | none => exact .inr (.inl h)
    | some p => exact .inl h
  · exact .inr (.inr ⟨_, rfl, _, rfl, (Option.some.inj h).symm⟩)
  · exact .inl h
  · exact .inr (.inl h)

lemma mem_laterFirst {v w : Option (Comparator ρ)} {r : Comparator ρ} (h : r ∈ laterFirst v w) :
    r ∈ v ∨ r ∈ w ∨ ∃ c ∈ v, ∃ d ∈ w, r = d.andThen c := by
  unfold laterFirst at h
  split at h
  · exact .inr (.inr ⟨_, rfl, _, rfl, (Option.some.inj h).symm⟩)
  · exact .inl h
  · exact .inr (.inl h)

end Fusion

namespace Operation

variable {ops : List (Operation ρ)}

lemma goesIn_filter {p : Predicate ρ} (hp : p.IsStatable E) (hsome : p.conjuncts ≠ []) :
    (filter E p).GoesIn E :=
  ⟨.filter hp.isPushable ⟨0, Lowering.lower_ok_iff.2 hp⟩, not_isEmptyFilter_filter hsome⟩

lemma goesIn_sortedBy {c : Comparator ρ} (hc : c.IsStatable E) : (sortedBy E c).GoesIn E :=
  ⟨.sortedBy hc, not_isEmptyFilter_of_predicate? nofun⟩

/-- Fused filters state the conjunction of their predicates, which has conjuncts as they do. -/
lemma goesIn_squash_filters (h : ∀ op ∈ ops, op.GoesIn E) :
    ∀ op ∈ (Fusion.filters E).squash ops, op.GoesIn E := by
  have hpart : ∀ {op : Operation ρ} {v : Option (Predicate ρ)}, op.GoesIn E →
      (Fusion.filters E).part? op = some v → ∀ p ∈ v, p.IsStatable E ∧ p.conjuncts ≠ [] := by
    intro op v hop hv
    obtain ⟨p, hp, rfl⟩ := Option.map_eq_some_iff.1 (Fusion.part?_eq_some hv).2
    rintro _ ⟨⟩
    exact ⟨hop.1.of_predicate? hp, fun hnone => hop.2 ⟨p, hp, hnone⟩⟩
  have hcombine : ∀ {v w : Option (Predicate ρ)},
      (∀ p ∈ v, p.IsStatable E ∧ p.conjuncts ≠ []) →
      (∀ p ∈ w, p.IsStatable E ∧ p.conjuncts ≠ []) →
      ∀ p ∈ (Fusion.filters E).combine v w, p.IsStatable E ∧ p.conjuncts ≠ [] := by
    intro v w hv hw r hr
    rcases Fusion.mem_bothHold hr with hr | hr | ⟨p, hp, q, hq, rfl⟩
    · exact hv r hr
    · exact hw r hr
    · exact ⟨(hv p hp).1.and (hw q hq).1, Predicate.conjuncts_and_ne_nil (hv p hp).2⟩
  have hbuild : ∀ {v : Option (Predicate ρ)}, (∀ p ∈ v, p.IsStatable E ∧ p.conjuncts ≠ []) →
      (Fusion.filters E).isNeutral v = false → ((Fusion.filters E).build v).GoesIn E := by
    intro v hv hn
    cases v with
    | none => cases hn
    | some p => exact goesIn_filter (hv p rfl).1 (hv p rfl).2
  exact Fusion.forall_mem_squash nofun hpart hcombine hbuild h

lemma goesIn_squash_sorts (h : ∀ op ∈ ops, op.GoesIn E) :
    ∀ op ∈ (Fusion.sorts E).squash ops, op.GoesIn E := by
  have hpart : ∀ {op : Operation ρ} {v : Option (Comparator ρ)}, op.GoesIn E →
      (Fusion.sorts E).part? op = some v → ∀ c ∈ v, c.IsStatable E := by
    intro op v hop hv
    obtain ⟨c, hc, rfl⟩ := Option.map_eq_some_iff.1 (Fusion.part?_eq_some hv).2
    rintro _ ⟨⟩
    exact hop.1.of_comparator? hc
  have hcombine : ∀ {v w : Option (Comparator ρ)}, (∀ c ∈ v, c.IsStatable E) →
      (∀ c ∈ w, c.IsStatable E) → ∀ c ∈ (Fusion.sorts E).combine v w, c.IsStatable E := by
    intro v w hv hw r hr
    rcases Fusion.mem_laterFirst hr with hr | hr | ⟨c, hc, d, hd, rfl⟩
    · exact hv r hr
    · exact hw r hr
    · exact (hw d hd).andThen (hv c hc)
  have hbuild : ∀ {v : Option (Comparator ρ)}, (∀ c ∈ v, c.IsStatable E) →
      (Fusion.sorts E).isNeutral v = false → ((Fusion.sorts E).build v).GoesIn E := by
    intro v hv hn
    cases v with
    | none => cases hn
    | some c => exact goesIn_sortedBy (hv c rfl)
  exact Fusion.forall_mem_squash nofun hpart hcombine hbuild h

/-- Among operations that go in there is no window to fuse. -/
lemma squash_of_kind_ne {ν : Type} {f : Fusion ρ ν} (hneutral : f.isNeutral f.neutral = true)
    (hkind : f.kind = .skip ∨ f.kind = .limit) (h : ∀ op ∈ ops, op.GoesIn E) :
    f.squash ops = ops := by
  refine Fusion.squash_of_part?_eq_none hneutral fun op hop => if_neg fun hsame => ?_
  obtain ⟨hskip, hlimit⟩ := (h op hop).1.kind_ne
  exact hkind.elim (fun hkind => hskip (hsame.trans hkind)) fun hkind => hlimit (hsame.trans hkind)

lemma goesIn_squashOnce (h : ∀ op ∈ ops, op.GoesIn E) :
    ∀ op ∈ squashOnce E ops, op.GoesIn E := by
  have hsorts := goesIn_squash_sorts (goesIn_squash_filters h)
  have hdistincts : ∀ op ∈ collapseDistinct _, op.GoesIn E := fun op hop =>
    hsorts op ((collapseDistinctAfter_sublist false _).subset hop)
  rw [squashOnce]
  rw [squash_of_kind_ne (f := Fusion.skips) rfl (.inl rfl) hdistincts,
    squash_of_kind_ne (f := Fusion.limits) rfl (.inr rfl) hdistincts]
  exact hdistincts

lemma goesIn_squashToFixpoint (h : ∀ op ∈ ops, op.GoesIn E) :
    ∀ op ∈ squashToFixpoint E ops, op.GoesIn E := by
  fun_induction squashToFixpoint E ops with
  | case1 ops next hfewer ih => exact ih (goesIn_squashOnce h)
  | case2 ops next hdone => exact goesIn_squashOnce h

/-- Optimization for a count leaves only operations that go in, if there are no others. -/
lemma goesIn_optimize (settings : OptimizerSettings) (h : ∀ op ∈ ops, op.GoesIn E) :
    ∀ op ∈ optimize E settings (some .count) ops, op.GoesIn E := by
  have hadded : added E settings (.count : Terminal ρ) = [] := added_eq_nil settings rfl
  rw [optimize_eq, hadded, List.append_nil]
  split
  · exact goesIn_squashToFixpoint h
  · exact h

end Operation

namespace Renderer

open Operation

variable {r : Renderer ρ} {s : Store ρ} {configuration : StreamConfiguration}
  {ops : List (Operation ρ)}

/-- A count of operations that go in asks for the number alone. -/
lemma plan_of_goesIn (hr : r.IsStandard s.entity) (hfast : r.settings.countFastPath = true)
    (hops : ∀ op ∈ ops, op.GoesIn s.entity) (configuration : StreamConfiguration) :
    let optimized := optimize s.entity r.settings.optimizer (some .count) ops
    let first := (Registry.standard s.entity).mergeCriteria optimized
      (configuration.criteria s.entity.name)
    let plan := r.plan configuration .count ops
    plan.request = .count first.target.toCount ∧ plan.remaining = [] := by
  intro optimized first plan
  have hoptimized : ∀ op ∈ optimized, op.GoesIn s.entity :=
    goesIn_optimize r.settings.optimizer hops
  have hwindowed : (configuration.criteria s.entity.name).windowed = false := by
    rw [StreamConfiguration.criteria_eq]
    rfl
  have hnone : first.operations = [] := by
    have hhalts (c : Criteria) : Absorption.Halts (Verdict.onCriteria s.entity) [] c := trivial
    obtain ⟨hleft, -⟩ := Registry.absorbCriteria_append hoptimized hhalts hwindowed
    rw [List.append_nil] at hleft
    exact (Registry.mergeCriteria_standard s.entity optimized _).1.trans hleft
  have hplan :
      plan = ⟨optimized, first.operations, .count first.target.toCount, first.outcome⟩ := by
    simp only [plan, plan_eq hr]
    rw [if_pos]
    simp only [first, optimized] at hnone
    rw [hnone, hfast]
    rfl
  rw [hplan]
  exact ⟨rfl, hnone⟩

/-- A healthy store accepts what it is asked then. -/
lemma refusal?_of_goesIn (hprimary : s.entity.hasColumn s.entity.primaryKey = true)
    (hhealthy : s.failure? = none) (hknown : configuration.KnownTo s.entity)
    (hops : ∀ op ∈ ops, op.GoesIn s.entity) :
    let first := (Registry.standard s.entity).mergeCriteria ops
      (configuration.criteria s.entity.name)
    s.refusal? first.target.toCount = none := by
  intro first
  have hserves := Store.serves_criteria hhealthy hknown
    (q := Query.ofCriteria (configuration.criteria s.entity.name)) fun _ => rfl
  have hregular : ∀ op ∈ ops, op.Regular s.entity :=
    fun op hop => (hops op hop).1.selects.regular
  obtain ⟨hserves', -⟩ := Store.replay_mergeCriteria hprimary hregular hserves
  exact Store.refusal?_toCount hserves'.accepted

lemma store_carryOut_count {plan : Plan ρ} {c : Criteria} (h : plan.request = .count c) :
    (r.carryOut s .count plan).store =
      match s.refusal? c with
      | some _ => s
      | none => { s with counts := s.counts + 1 } := by
  unfold carryOut Store.count
  simp only [h]
  cases s.refusal? c <;> rfl

/-- A count over operations that go in has the store count and nothing else. -/
lemma render_of_goesIn (hr : r.IsStandard s.entity) (hfast : r.settings.countFastPath = true)
    (hprimary : s.entity.hasColumn s.entity.primaryKey = true) {pipeline : Pipeline ρ}
    (hready : pipeline.state = .ready) (hcount : pipeline.terminal? = some .count)
    (hops : ∀ op ∈ pipeline.operations, op.GoesIn s.entity)
    (configuration : StreamConfiguration) :
    let rendering := r.render s pipeline configuration
    (∃ c, (r.plan configuration .count pipeline.operations).request = .count c) ∧
      rendering.pipeline.operations = [] ∧ rendering.store.executions = s.executions ∧
      (s.failure? = none → configuration.KnownTo s.entity →
        ∃ result n, rendering.result = .ok result ∧ result.sequence = .counted n ∧
          result.summary.countFastPath = true ∧
          rendering.store = { s with counts := s.counts + 1 }) := by
  intro rendering
  obtain ⟨hrequest, hremaining⟩ := plan_of_goesIn hr hfast hops configuration
  obtain ⟨hresult, hstore, hoperations, -⟩ := render_of_beginRender
    (Pipeline.beginRender_eq_ok.2 ⟨hready, hcount⟩) r s configuration
  rw [store_carryOut_count hrequest] at hstore
  rw [result_carryOut_count hrequest] at hresult
  refine ⟨⟨_, hrequest⟩, hoperations.trans hremaining, ?_, fun hhealthy hknown => ?_⟩
  · simp only [rendering, hstore]
    split <;> rfl
  · have haccepted := refusal?_of_goesIn hprimary hhealthy hknown
      (goesIn_optimize r.settings.optimizer hops)
    rw [haccepted] at hresult hstore
    refine ⟨_, _, hresult, rfl, ?_, hstore⟩
    simp only [Plan.summary, hrequest]

/-- Push-down is complete, but for filters without conjuncts. With none of these, a merge absorbs
filters, sorts and DISTINCT that a query can state, and skips and limits behind them; so a count
that knows no window is left to the store, which runs no query for it. The first filter without
conjuncts stays, with all that stands behind it. -/
theorem push_down_complete (hprimary : s.entity.hasColumn s.entity.primaryKey = true)
    {front back : List (Operation ρ)} (hfront : ∀ op ∈ front, op.IsStatable s.entity)
    (hback : ∀ op ∈ back, op.Cuts) {q : Query} (hq : q.criteria.windowed = false) :
    let p := (Registry.standard s.entity).merge (front ++ back) q
    ((∀ op ∈ front, ¬ op.IsEmptyFilter) →
        (p.operations = [] ∧ p.outcome.removed = front.length + back.length ∧
          p.outcome.replaced = 0) ∧
        ∀ r : Renderer ρ, r.IsStandard s.entity → r.settings.countFastPath = true →
          ∀ (pipeline : Pipeline ρ) (configuration : StreamConfiguration),
            pipeline.state = .ready → pipeline.terminal? = some .count →
            pipeline.operations = front →
            let rendering := r.render s pipeline configuration
            (∃ c, (r.plan configuration .count front).request = .count c) ∧
              rendering.pipeline.operations = [] ∧ rendering.store.executions = s.executions ∧
              (s.failure? = none → configuration.KnownTo s.entity →
                ∃ result n, rendering.result = .ok result ∧ result.sequence = .counted n ∧
                  result.summary.countFastPath = true ∧
                  rendering.store = { s with counts := s.counts + 1 })) ∧
      ∀ before op after, front = before ++ op :: after → (∀ o ∈ before, ¬ o.IsEmptyFilter) →
        op.IsEmptyFilter →
        p.operations = op :: (after ++ back) ∧ p.outcome.removed = before.length ∧
          p.outcome.replaced = 0 := by
  intro p
  constructor
  · intro hsome
    have hgoes : ∀ op ∈ front, op.GoesIn s.entity := fun op hop => ⟨hfront op hop, hsome op hop⟩
    refine ⟨Registry.merge_of_isStatable hgoes hback hq, ?_⟩
    rintro r hr hfast pipeline configuration hready hcount rfl
    exact render_of_goesIn hr hfast hprimary hready hcount hgoes configuration
  · rintro before op after rfl hsome hempty
    obtain ⟨hbefore, hrest⟩ := List.forall_mem_append.1 hfront
    have hgoes : ∀ o ∈ before, o.GoesIn s.entity := fun o ho => ⟨hbefore o ho, hsome o ho⟩
    have hmerge := Registry.merge_of_isEmptyFilter hgoes (hrest op List.mem_cons_self) hempty
      (after ++ back) hq
    simpa [p] using hmerge

theorem push_down_complete_records :
    let E := Entity.ofColumns "Person" "id" ["id", "age"]
    let s := Store.new E [⟨[("id", .int 1), ("age", .int 30)]⟩, ⟨[("id", .int 2)]⟩]
    let p : Predicate Record := .all [.all [.column ⟨"age", .gte (.int 18)⟩], .any [], .always]
    let front := [filter E p, sortedBy E (.chain []), distinct E, filter E .never, sorted E]
    let back : List (Operation Record) := [skip 1, limit 5, skip 0]
    let q := Query.ofCriteria (Criteria.new "Person")
    let pipeline := { Pipeline.ofOperations E front with terminal? := some .count }
    let rendering := (Renderer.new E).render s pipeline .standard
    (∀ op ∈ front, op.IsStatable E) ∧ (∀ op ∈ back, op.Cuts) ∧ q.criteria.windowed = false ∧
      ((Registry.standard E).merge (front ++ back) q).operations = [] ∧
      rendering.store.executions = 0 ∧ rendering.store.counts = 1 := by
  intro E s p front back q pipeline rendering
  have hr : (Renderer.new s.entity).IsStandard s.entity := ⟨rfl, rfl, rfl⟩
  have hfront : ∀ op ∈ front, op.IsStatable E := by
    simp only [front, List.forall_mem_cons, List.not_mem_nil, false_imp_iff, implies_true, and_true]
    have hchain : (Comparator.chain [] : Comparator Record).IsStatable E :=
      ⟨rfl, by simp [Comparator.keys, Comparator.keysOfChain]⟩
    exact ⟨.filter rfl ⟨0, _, rfl⟩, .sortedBy hchain, .distinct, .filter rfl ⟨0, _, rfl⟩, .sorted⟩
  have hback : ∀ op ∈ back, op.Cuts := by
    simp only [back, List.forall_mem_cons, List.not_mem_nil, false_imp_iff, implies_true, and_true]
    exact ⟨.skip 1, .limit 5, .skip 0⟩
  have hsome : ∀ op ∈ front, ¬ op.IsEmptyFilter := by
    simp only [front, List.forall_mem_cons, List.not_mem_nil, false_imp_iff, implies_true, and_true]
    exact ⟨not_isEmptyFilter_filter (List.cons_ne_nil _ _), not_isEmptyFilter_of_predicate? nofun,
      not_isEmptyFilter_of_predicate? nofun, not_isEmptyFilter_filter (List.cons_ne_nil _ _),
      not_isEmptyFilter_of_predicate? nofun⟩
  obtain ⟨⟨hmerge, -, -⟩, hrender⟩ :=
    (push_down_complete (s := s) (by decide) hfront hback (q := q) rfl).1 hsome
  obtain ⟨-, -, hexecutions, hcounts⟩ := hrender _ hr rfl pipeline .standard rfl rfl rfl
  obtain ⟨-, -, -, -, -, hstore⟩ := hcounts rfl ⟨nofun, nofun⟩
  exact ⟨hfront, hback, rfl, hmerge, hexecutions, congrArg Store.counts hstore⟩

/-- A filter by an empty conjunction can be stated, but it stays. So do the operations behind it,
and a count over it alone runs a query for its rows. -/
theorem push_down_strands_empty_conjunction :
    let E := Entity.ofColumns "Person" "id" ["id", "age"]
    let ops := [filter E (.all []), sorted E, distinct E]
    let p := (Registry.standard E).merge ops (.ofCriteria (.new "Person"))
    let plan := (Renderer.new E).plan .standard .count [filter E (.all [])]
    (∀ op ∈ ops, op.IsStatable E) ∧ p.operations.length = 3 ∧ p.outcome.removed = 0 ∧
      ∃ q, plan.request = .rows q := by
  intro E ops p plan
  have hstatable : ∀ op ∈ ops, op.IsStatable E := by
    simp only [ops, List.forall_mem_cons, List.not_mem_nil, false_imp_iff, implies_true, and_true]
    exact ⟨.filter rfl ⟨0, _, rfl⟩, .sorted, .distinct⟩
  have hsquashed : squashToFixpoint E [filter E (.all [])] = [filter E (.all [])] := by
    rw [squashToFixpoint]
    rfl
  have hoptimized : optimize E .standard (some .count) [filter E (.all [])] =
      [filter E (.all [])] := hsquashed
  have hr : (Renderer.new E).IsStandard (Store.new E []).entity := ⟨rfl, rfl, rfl⟩
  refine ⟨hstatable, by decide, by decide, _, (request_plan hr).trans (if_neg ?_)⟩
  change ¬ ((Terminal.count : Terminal Record).kind == .count &&
    ((Registry.standard E).mergeCriteria (optimize E .standard (some .count) [filter E (.all [])])
      (StreamConfiguration.standard.criteria "Person")).operations.isEmpty && true) = true
  rw [hoptimized]
  decide

end Renderer
end Pushdown
