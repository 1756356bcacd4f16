import Pushdown.Proofs.Bindings
import Pushdown.Proofs.Rendering
import Pushdown.Proofs.Terminals

/-!
# Named columns

The columns that a merge has a query name are looked up in the entity before, so a store knows them.
The natural order alone is taken over as it is: it goes by the primary key, which an entity need not
have among its columns.
-/

namespace Pushdown

variable {ρ : Type} {E : Entity ρ}

namespace Predicate

mutual

/-- The columns that the conditions of a predicate name. -/
def columns : Predicate ρ → List String
  | always | never | closure _ => []
  | column c => [c.column]
  | all ps | any ps => columnsOfEach ps
  | not p => columns p

def columnsOfEach : List (Predicate ρ) → List String
  | [] => []
  | p :: ps => columns p ++ columnsOfEach ps

end

theorem columnsOfEach_eq (ps : List (Predicate ρ)) : columnsOfEach ps = ps.flatMap columns := by
  induction ps with
  | nil => rfl
  | cons p ps ih => simp [columnsOfEach, ih]

end Predicate

namespace Restriction

mutual

/-- The columns that the comparisons of a restriction name. -/
def columns : Restriction → List String
  | always | never => []
  | compare c _ => [c.column]
  | all rs | any rs => columnsOfEach rs
  | not r => columns r

def columnsOfEach : List Restriction → List String
  | [] => []
  | r :: rs => columns r ++ columnsOfEach rs

end

mutual

/-- The columns of a restriction are those that its comparisons test. -/
theorem columns_eq : ∀ r : Restriction, r.columns = r.comparisons.map (·.1.column)
  | always | never | compare _ _ => rfl
  | all rs | any rs => columnsOfEach_eq rs
  | not r => columns_eq r

theorem columnsOfEach_eq :
    ∀ rs : List Restriction, columnsOfEach rs = (comparisonsOfEach rs).map (·.1.column)
  | [] => rfl
  | r :: rs => by
    rw [columnsOfEach, comparisonsOfEach, List.map_append, columns_eq r, columnsOfEach_eq rs]

end

lemma columns_and (r s : Restriction) : (r.and s).columns = r.columns ++ s.columns := by
  simp only [columns_eq, comparisons_and, List.map_append]

lemma columns_ofConjuncts (rs : List Restriction) :
    (ofConjuncts rs).columns = columnsOfEach rs := by
  rw [columns_eq, comparisons_ofConjuncts, columnsOfEach_eq]

end Restriction

namespace Comparator

mutual

/-- A key of a key is a key. -/
theorem mem_keys_of_mem_keys :
    ∀ (c : Comparator ρ) {k l : Comparator ρ}, k ∈ c.keys → l ∈ k.keys → l ∈ c.keys
  | column .., k, l, hk, hl | natural, k, l, hk, hl | closure _, k, l, hk, hl => by
    obtain rfl := List.mem_singleton.1 hk
    exact hl
  | chain ks, k, l, hk, hl => by
    rw [keys] at hk ⊢
    exact mem_keysOfChain_of_mem_keys ks hk hl

theorem mem_keysOfChain_of_mem_keys :
    ∀ (ks : List (Comparator ρ)) {k l : Comparator ρ}, k ∈ keysOfChain ks → l ∈ k.keys →
      l ∈ keysOfChain ks
  | [], k, l, hk, hl => nomatch hk
  | k' :: ks, k, l, hk, hl => by
    rw [keysOfChain, List.mem_append] at hk ⊢
    exact hk.imp (mem_keys_of_mem_keys k' · hl) (mem_keysOfChain_of_mem_keys ks · hl)

end

lemma mem_keys_andThen {c d k : Comparator ρ} (h : k ∈ (c.andThen d).keys) :
    k ∈ c.keys ∨ k ∈ d.keys := by
  rw [andThen, keys, keysOfChain_eq, List.mem_flatMap] at h
  obtain ⟨l, hl, hk⟩ := h
  exact (List.mem_append.1 hl).imp (mem_keys_of_mem_keys c · hk) (mem_keys_of_mem_keys d · hk)

end Comparator

namespace Lowering

mutual

/-- What lowering makes of a predicate names the same columns, and all of them belong to the
entity. -/
theorem columns_of_lower (used : Nat) :
    ∀ (p : Predicate ρ) {r}, lower E used p = .ok r →
      r.1.columns = p.columns ∧ ∀ column ∈ p.columns, E.hasColumn column = true
  | .always, r, h | .never, r, h => by
    cases h
    exact ⟨rfl, nofun⟩
  | .column c, r, h => by
    rw [lower] at h
    obtain ⟨hcolumn, parameters, hr⟩ := lowerCondition_ok h
    exact ⟨by rw [hr]; rfl, List.forall_mem_singleton.2 hcolumn⟩
  | .all ps, r, h | .any ps, r, h => by
    rw [lower] at h
    obtain ⟨rs, hrs, rfl⟩ := map_eq_ok h
    exact columns_of_lowerList used ps hrs
  | .not p, r, h => by
    rw [lower] at h
    obtain ⟨s, hs, rfl⟩ := map_eq_ok h
    have hcolumns := columns_of_lower used p hs
    exact hcolumns
  | .closure _, r, h => nomatch h

theorem columns_of_lowerList (used : Nat) :
    ∀ (ps : List (Predicate ρ)) {rs}, lowerList E used ps = .ok rs →
      Restriction.columnsOfEach rs.1 = Predicate.columnsOfEach ps ∧
        ∀ column ∈ Predicate.columnsOfEach ps, E.hasColumn column = true
  | [], rs, h => by
    cases h
    exact ⟨rfl, nofun⟩
  | p :: ps, rs, h => by
    rw [lowerList] at h
    obtain ⟨⟨r, bindings⟩, hr, h⟩ := bind_eq_ok h
    obtain ⟨⟨rs, more⟩, hrs, h⟩ := bind_eq_ok h
    cases h
    obtain ⟨hcolumns, hknown⟩ := columns_of_lower used p hr
    obtain ⟨hcolumns', hknown'⟩ := columns_of_lowerList _ ps hrs
    refine ⟨?_, List.forall_mem_append.2 ⟨hknown, hknown'⟩⟩
    exact congrArg₂ (· ++ ·) hcolumns hcolumns'

end

/-- The order term that stands for one key. The column is looked up only if the key names it. -/
inductive StandsFor (E : Entity ρ) : OrderTerm → Comparator ρ → Prop
  | column {name : String} {direction : Direction} (h : E.hasColumn name = true) :
      StandsFor E ⟨name, direction⟩ (.column name direction)
  | natural : StandsFor E ⟨E.primaryKey, .ascending⟩ .natural

mutual

/-- A comparator is lowered key by key. -/
theorem standsFor_of_orderTerms :
    ∀ (c : Comparator ρ) {terms}, orderTerms E c = .ok terms →
      List.Forall₂ (StandsFor E) terms c.keys
  | .column name direction, terms, h => by
    rw [orderTerms] at h
    obtain ⟨u, hcolumn, rfl⟩ := map_eq_ok h
    exact .cons (.column (hasColumn_of_checkColumn hcolumn)) .nil
  | .natural, terms, h => by
    cases h
    exact .cons .natural .nil
  | .chain keys, terms, h => by
    rw [orderTerms] at h
    rw [Comparator.keys]
    exact standsFor_of_orderTermsOfChain keys h
  | .closure _, terms, h => nomatch h

theorem standsFor_of_orderTermsOfChain :
    ∀ (keys : List (Comparator ρ)) {terms}, orderTermsOfChain E keys = .ok terms →
      List.Forall₂ (StandsFor E) terms (Comparator.keysOfChain keys)
  | [], terms, h => by
    cases h
    exact .nil
  | key :: keys, terms, h => by
    rw [orderTermsOfChain] at h
    obtain ⟨front, hfront, h⟩ := bind_eq_ok h
    obtain ⟨rest, hrest, h⟩ := bind_eq_ok h
    cases h
    exact List.rel_append (standsFor_of_orderTerms key hfront)
      (standsFor_of_orderTermsOfChain keys hrest)

end

variable {terms : List OrderTerm} {keys : List (Comparator ρ)}

/-- An order by the terms of keys names columns of the entity, unless one of the keys is the natural
order. -/
lemma mem_of_standsFor (h : List.Forall₂ (StandsFor E) terms keys) :
    ∀ t ∈ terms, E.hasColumn t.column = true ∨ t.column = E.primaryKey ∧ .natural ∈ keys := by
  induction h with
  | nil => exact List.forall_mem_nil _
  | cons hterm hterms ih =>
    refine List.forall_mem_cons.2 ⟨?_, fun t ht => ?_⟩
    · cases hterm with
      | column hcolumn => exact Or.inl hcolumn
      | natural => exact Or.inr ⟨rfl, List.mem_cons_self⟩
    · exact (ih t ht).imp_right fun h => ⟨h.1, List.mem_cons_of_mem _ h.2⟩

lemma exists_of_standsFor (h : List.Forall₂ (StandsFor E) terms keys) {key : Comparator ρ}
    (hkey : key ∈ keys) : ∃ t ∈ terms, StandsFor E t key := by
  induction h with
  | nil => cases hkey
  | cons hterm hterms ih =>
    rcases List.mem_cons.1 hkey with rfl | hkey
    · exact ⟨_, List.mem_cons_self, hterm⟩
    · obtain ⟨t, ht, hstands⟩ := ih hkey
      exact ⟨t, List.mem_cons_of_mem _ ht, hstands⟩

end Lowering

namespace Operation

/-- Is the natural order what the operation sorts by, or one key of it? -/
def SortsByKey (op : Operation ρ) : Prop :=
  op.kind = .sorted ∧ .natural ∈ (op.comparator?.getD .natural).keys

/-- A query can take the operation in only if it names a column that the entity does not have. -/
inductive NeedsUnknown (E : Entity ρ) (op : Operation ρ) : Prop
  | filter {p q : Predicate ρ} {column : String} (hkind : op.kind = .filter)
      (hp : op.predicate? = some p) (hq : q ∈ p.conjuncts) (hpushable : q.isPushable = true)
      (hcolumn : column ∈ q.columns) (hunknown : E.hasColumn column = false)
  | sort {name : String} {direction : Direction} (hkind : op.kind = .sorted)
      (hkey : .column name direction ∈ (op.comparator?.getD .natural).keys)
      (hunknown : E.hasColumn name = false)

lemma not_sortsByKey_of_kind {op : Operation ρ} (h : op.kind ≠ .sorted) : ¬op.SortsByKey :=
  fun hsorts => h hsorts.1

lemma exists_sortsByKey_concat {ops : List (Operation ρ)} {op : Operation ρ} :
    (∃ o ∈ ops ++ [op], o.SortsByKey) ↔ (∃ o ∈ ops, o.SortsByKey) ∨ op.SortsByKey := by
  simp [or_and_right, exists_or]

end Operation

namespace Criteria

def restrictedColumns (c : Criteria) : List String :=
  match c.restriction? with
  | some r => r.columns
  | none => []

lemma restrictedColumns_restrict (c : Criteria) (r : Restriction) (bindings : List Binding) :
    (c.restrict r bindings).restrictedColumns = c.restrictedColumns ++ r.columns := by
  unfold restrictedColumns restrict
  cases c.restriction? with
  | none => rfl
  | some old => exact Restriction.columns_and old r

lemma Takes.not_needsUnknown {op : Operation ρ} {c c' : Criteria} (h : c.Takes E op c') :
    ¬op.NeedsUnknown E := by
  intro hneeds
  cases h with
  | restrict hkind hp hpushable hlower =>
    cases hneeds with
    | filter hkind' hp' hq hpushable' hcolumn hunknown =>
      obtain rfl := Option.some.inj (hp.symm.trans hp')
      have hknown := (Lowering.columns_of_lowerList _ _ hlower).2
      rw [Predicate.columnsOfEach_eq] at hknown
      have hmem := List.mem_flatMap.2 ⟨_, List.mem_filter.2 ⟨hq, hpushable'⟩, hcolumn⟩
      exact Bool.false_ne_true (hunknown.symm.trans (hknown _ hmem))
    | sort hkind' => cases hkind.symm.trans hkind'
  | prependOrder hkind hterms =>
    cases hneeds with
    | filter hkind' => cases hkind.symm.trans hkind'
    | sort hkind' hkey hunknown =>
      obtain ⟨t, -, hstands⟩ :=
        Lowering.exists_of_standsFor (Lowering.standsFor_of_orderTerms _ hterms) hkey
      cases hstands with
      | column hknown => exact Bool.false_ne_true (hunknown.symm.trans hknown)
  | setDistinct hkind =>
    cases hneeds with
    | filter hkind' => cases hkind.symm.trans hkind'
    | sort hkind' => cases hkind.symm.trans hkind'

/-- Criteria that name columns of their entity, but for the primary key if one of `ops`, which went
in, sorts by it. -/
structure Names (E : Entity ρ) (ops : List (Operation ρ)) (c : Criteria) : Prop where
  root_eq : c.root = E.name
  restricted : ∀ column ∈ c.restrictedColumns, E.hasColumn column = true
  referenced : ∀ column ∈ Store.referencedColumns c,
    E.hasColumn column = true ∨ column = E.primaryKey ∧ ∃ op ∈ ops, op.SortsByKey
  keyed : (∃ op ∈ ops, op.SortsByKey) → E.primaryKey ∈ c.order.map OrderTerm.column

namespace Names

variable {ops : List (Operation ρ)} {op : Operation ρ} {c : Criteria}

lemma concat (h : c.Names E ops) (hop : ¬op.SortsByKey) : c.Names E (ops ++ [op]) := by
  have hsame : (∃ o ∈ ops ++ [op], o.SortsByKey) ↔ ∃ o ∈ ops, o.SortsByKey := by
    rw [Operation.exists_sortsByKey_concat, or_iff_left hop]
  exact ⟨h.root_eq, h.restricted, by simpa only [hsame] using h.referenced,
    by simpa only [hsame] using h.keyed⟩

lemma restrict (h : c.Names E ops) {r : Restriction}
    (hr : ∀ column ∈ r.columns, E.hasColumn column = true) (bindings : List Binding) :
    (c.restrict r bindings).Names E ops where
  root_eq := h.root_eq
  restricted := by
    rw [restrictedColumns_restrict]
    exact List.forall_mem_append.2 ⟨h.restricted, hr⟩
  referenced := h.referenced
  keyed := h.keyed

lemma prependOrder (h : c.Names E ops) (hkind : op.kind = .sorted) {terms : List OrderTerm}
    (hterms : Lowering.orderTerms E (op.comparator?.getD .natural) = .ok terms) :
    (c.prependOrder terms).Names E (ops ++ [op]) := by
  have hstands := Lowering.standsFor_of_orderTerms _ hterms
  refine ⟨h.root_eq, h.restricted, fun column hcolumn => ?_, fun hsorts => ?_⟩
  · rw [Operation.exists_sortsByKey_concat]
    rcases Store.mem_referencedColumns_prependOrder.1 hcolumn with hcolumn | hcolumn
    · obtain ⟨t, ht, rfl⟩ := List.mem_map.1 hcolumn
      refine (Lowering.mem_of_standsFor hstands t ht).imp_right ?_
      exact fun hkey => ⟨hkey.1, Or.inr ⟨hkind, hkey.2⟩⟩
    · exact (h.referenced column hcolumn).imp_right fun hkey => ⟨hkey.1, Or.inl hkey.2⟩
  · rw [Criteria.prependOrder, List.map_append, List.mem_append]
    rcases Operation.exists_sortsByKey_concat.1 hsorts with hsorts | hsorts
    · exact Or.inr (h.keyed hsorts)
    · obtain ⟨t, ht, hterm⟩ := Lowering.exists_of_standsFor hstands hsorts.2
      cases hterm
      exact Or.inl (List.mem_map_of_mem ht)

lemma takes (h : c.Names E ops) {c' : Criteria} (htakes : c.Takes E op c') :
    c'.Names E (ops ++ [op]) := by
  cases htakes with
  | restrict hkind hp hpushable hlower =>
    obtain ⟨hcolumns, hknown⟩ := Lowering.columns_of_lowerList _ _ hlower
    rw [← hcolumns, ← Restriction.columns_ofConjuncts] at hknown
    exact (h.restrict hknown _).concat (Operation.not_sortsByKey_of_kind (by simp [hkind]))
  | prependOrder hkind hterms => exact h.prependOrder hkind hterms
  | setDistinct hkind =>
    have hdistinct : (c.setDistinct true).Names E ops :=
      ⟨h.root_eq, h.restricted, h.referenced, h.keyed⟩
    exact hdistinct.concat (Operation.not_sortsByKey_of_kind (by simp [hkind]))

lemma onQuery {q q' : Query} (h : q.criteria.Names E ops)
    (hgoes : (Verdict.onQuery op q).target? = some q') : q'.criteria.Names E (ops ++ [op]) := by
  obtain ⟨hkind, hcriteria⟩ := Verdict.criteria_of_onQuery hgoes
  have hwindowed : q.criteria.markWindowed.Names E ops :=
    ⟨h.root_eq, h.restricted, h.referenced, h.keyed⟩
  rw [hcriteria]
  refine hwindowed.concat (Operation.not_sortsByKey_of_kind ?_)
  rcases hkind with hkind | hkind <;> simp [hkind]

lemma toCount (h : c.Names E ops) : c.toCount.Names E ops where
  root_eq := h.root_eq
  restricted := h.restricted
  referenced column hcolumn := h.referenced column (Store.mem_referencedColumns_toCount hcolumn)
  keyed := h.keyed

end Names
end Criteria

namespace Store

variable {s : Store ρ} {c : Criteria} {ops : List (Operation ρ)}

/-- A store that does not fail refuses such criteria for the primary key only, and it refuses them
if they sort by a key that it does not know. -/
lemma refusal?_of_names (hhealthy : s.failure? = none) (h : c.Names s.entity ops) :
    (s.refusal? c = none ↔ s.entity.hasColumn s.entity.primaryKey = true ∨
      ∀ op ∈ ops, ¬op.SortsByKey) ∧
    ∀ e, s.refusal? c = some e → e = .unknownColumn s.entity.name s.entity.primaryKey := by
  refine ⟨⟨fun hnone => ?_, fun hkey => ?_⟩, fun e he => ?_⟩
  · obtain ⟨-, -, hknows⟩ := refusal?_eq_none.1 hnone
    by_cases hsorts : ∃ op ∈ ops, op.SortsByKey
    · obtain ⟨t, ht, hcolumn⟩ := List.mem_map.1 (h.keyed hsorts)
      rw [← hcolumn]
      exact Or.inl (hknows.order t ht)
    · exact Or.inr fun op hop hop' => hsorts ⟨op, hop, hop'⟩
  · refine refusal?_eq_none.2 ⟨hhealthy, h.root_eq, fun column hcolumn => ?_⟩
    rcases h.referenced column hcolumn with hknown | ⟨rfl, op, hop, hsorts⟩
    · exact hknown
    · exact hkey.resolve_right fun hnever => hnever op hop hsorts
  · obtain ⟨column, hcolumn, hunknown, rfl⟩ := refusal?_eq_some hhealthy h.root_eq he
    rcases h.referenced column hcolumn with hknown | ⟨rfl, -⟩
    · exact absurd (hunknown.symm.trans hknown) Bool.false_ne_true
    · rfl

lemma names_criteria {configuration : StreamConfiguration}
    (hknown : configuration.KnownTo s.entity) :
    (configuration.criteria s.entity.name).Names s.entity [] := by
  have hknows := knowsColumns_criteria hknown s.entity.name
  rw [StreamConfiguration.criteria_eq] at hknows ⊢
  exact ⟨rfl, nofun, fun column hcolumn => Or.inl (hknows column hcolumn), nofun⟩

end Store

namespace Registry

variable (E : Entity ρ) {ops : List (Operation ρ)}

/-- An operation that needs an unknown column stays, with everything behind it. -/
lemma suffix_merge {op : Operation ρ} {rest : List (Operation ρ)} (h : op :: rest <:+ ops)
    (hneeds : op.NeedsUnknown E) (q : Query) :
    op :: rest <:+ ((standard E).merge ops q).operations := by
  have hcriteria (c : Criteria) : (Verdict.onCriteria E op c).target? = none := by
    apply Option.eq_none_iff_forall_ne_some.2
    intro c' hgoes
    exact (Verdict.takes_of_onCriteria hgoes).2.not_needsUnknown hneeds
  have hquery (q : Query) : (Verdict.onQuery op q).target? = none := by
    apply Option.eq_none_iff_forall_ne_some.2
    intro q' hgoes
    obtain ⟨hkind, -⟩ := Verdict.criteria_of_onQuery hgoes
    cases hneeds with
    | filter hkind' => simp [hkind'] at hkind
    | sort hkind' => simp [hkind'] at hkind
  rw [(merge_standard E ops q).1]
  exact Absorption.suffix_left hquery (Absorption.suffix_left hcriteria h q.criteria) _

lemma names_absorbCriteria {c : Criteria} (h : c.Names E []) :
    ∃ front, (∀ op ∈ front, op ∈ ops) ∧ (absorbCriteria E ops c).target.Names E front := by
  obtain ⟨front, hops, hnames, -⟩ := Absorption.absorb_induction
    (Q := fun before (c : Criteria) => c.Names E before)
    (fun _ _ _ _ h hgoes => h.takes (Verdict.takes_of_onCriteria hgoes).2) ops h
  refine ⟨front, fun op hop => ?_, hnames⟩
  rw [hops]
  exact List.mem_append_left _ hop

lemma names_merge {q : Query} (h : q.criteria.Names E []) :
    let p := (standard E).merge ops q
    p.target.criteria.Names E (ops.take (p.outcome.removed + p.outcome.replaced)) :=
  merge_induction E (Q := fun before q => q.criteria.Names E before)
    (fun _ _ _ _ h hgoes => h.takes (Verdict.takes_of_onCriteria hgoes).2)
    (fun _ _ _ _ h hgoes => h.onQuery hgoes) ops h

end Registry

namespace Operation

variable {ops : List (Operation ρ)}

lemma not_sortsByKey_squash {ν : Type} {f : Fusion ρ ν} (hf : ∀ v, (f.build v).kind ≠ .sorted)
    (h : ∀ op ∈ ops, ¬op.SortsByKey) : ∀ op ∈ f.squash ops, ¬op.SortsByKey :=
  Fusion.forall_mem_squash (V := fun _ => True) trivial (fun _ _ => trivial) (fun _ _ => trivial)
    (fun {v} _ _ => not_sortsByKey_of_kind (hf v)) h

lemma not_sortsByKey_squash_sorts (h : ∀ op ∈ ops, ¬op.SortsByKey) :
    ∀ op ∈ (Fusion.sorts E).squash ops, ¬op.SortsByKey := by
  have hpart : ∀ {op : Operation ρ} {v : Option (Comparator ρ)}, ¬op.SortsByKey →
      (Fusion.sorts E).part? op = some v → ∀ c ∈ v, .natural ∉ c.keys := by
    intro op v hop hv
    obtain ⟨hkind, hv⟩ := Fusion.part?_eq_some hv
    obtain ⟨c, hc, rfl⟩ := Option.map_eq_some_iff.1 hv
    rintro _ ⟨⟩ hnatural
    exact hop ⟨hkind, by rwa [hc]⟩
  have hcombine : ∀ {v w : Option (Comparator ρ)}, (∀ c ∈ v, .natural ∉ c.keys) →
      (∀ c ∈ w, .natural ∉ c.keys) → ∀ c ∈ (Fusion.sorts E).combine v w, .natural ∉ c.keys := by
    intro v w hv hw
    cases v with
    | none => cases w <;> exact hw
    | some c =>
      cases w with
      | none => exact hv
      | some d =>
        rintro _ ⟨⟩ hnatural
        exact (Comparator.mem_keys_andThen hnatural).elim (hw d rfl) (hv c rfl)
  have hbuild : ∀ {v : Option (Comparator ρ)}, (∀ c ∈ v, .natural ∉ c.keys) →
      (Fusion.sorts E).isNeutral v = false → ¬((Fusion.sorts E).build v).SortsByKey := by
    intro v hv hn
    cases v with
    | none => cases hn
    | some c => exact fun hsorts => hv c rfl hsorts.2
  exact Fusion.forall_mem_squash nofun hpart hcombine hbuild h

/-- Squashing sorts by the key only where an operation did before. -/
lemma not_sortsByKey_squashOnce (h : ∀ op ∈ ops, ¬op.SortsByKey) :
    ∀ op ∈ squashOnce E ops, ¬op.SortsByKey := by
  have hsorts := not_sortsByKey_squash_sorts (E := E)
    (not_sortsByKey_squash (f := Fusion.filters E) (by simp [Fusion.filters, filter]) h)
  have hdistincts : ∀ op ∈ collapseDistinct _, ¬op.SortsByKey := fun op hop =>
    hsorts op ((collapseDistinctAfter_sublist false _).subset hop)
  have hskips := not_sortsByKey_squash (f := Fusion.skips) (by simp [Fusion.skips, skip]) hdistincts
  exact not_sortsByKey_squash (f := Fusion.limits) (by simp [Fusion.limits, limit]) hskips

lemma not_sortsByKey_squashToFixpoint (h : ∀ op ∈ ops, ¬op.SortsByKey) :
    ∀ op ∈ squashToFixpoint E ops, ¬op.SortsByKey := by
  fun_induction squashToFixpoint E ops with
  | case1 ops next hfewer ih => exact ih (not_sortsByKey_squashOnce h)
  | case2 ops next hdone => exact not_sortsByKey_squashOnce h

lemma kind_ne_sorted_of_mem_shortCircuit (E : Entity ρ) (t : Terminal ρ) :
    ∀ op ∈ shortCircuit E t, op.kind ≠ .sorted := by
  cases t <;> simp [shortCircuit, filter, limit]

lemma not_sortsByKey_optimize (settings : OptimizerSettings) (t : Terminal ρ)
    (h : ∀ op ∈ ops, ¬op.SortsByKey) : ∀ op ∈ optimize E settings (some t) ops, ¬op.SortsByKey := by
  have hadded : ∀ op ∈ added E settings t, ¬op.SortsByKey := by
    intro op hop
    unfold added at hop
    split at hop
    · exact not_sortsByKey_of_kind (kind_ne_sorted_of_mem_shortCircuit E t op hop)
    · cases hop
  have hall : ∀ op ∈ ops ++ added E settings t, ¬op.SortsByKey :=
    List.forall_mem_append.2 ⟨h, hadded⟩
  rw [optimize_eq]
  split
  · exact not_sortsByKey_squashToFixpoint hall
  · exact hall

end Operation

namespace Renderer

variable {s : Store ρ} {r : Renderer ρ} {configuration : StreamConfiguration}

lemma names_request (t : Terminal ρ) (ops : List (Operation ρ)) (hr : r.IsStandard s.entity)
    (hknown : configuration.KnownTo s.entity) :
    ∃ front, (∀ op ∈ front, op ∈ Operation.optimize s.entity r.settings.optimizer (some t) ops) ∧
      (r.plan configuration t ops).request.criteria.Names s.entity front := by
  have hnames := Store.names_criteria hknown
  rw [request_plan hr]
  split
  · obtain ⟨front, hfront, htarget⟩ := Registry.names_absorbCriteria s.entity hnames
    refine ⟨front, hfront, ?_⟩
    rw [(Registry.mergeCriteria_standard s.entity _ _).2.1]
    exact htarget.toCount
  · exact ⟨_, fun _ => List.mem_of_mem_take, Registry.names_merge s.entity hnames⟩

/-- Over a store that does not fail no render ends in an error of the store, unless an operation
sorts by a primary key that is no column. -/
lemma render_ne_store_error (hr : r.IsStandard s.entity) (hhealthy : s.failure? = none)
    (hknown : configuration.KnownTo s.entity) {pipeline : Pipeline ρ}
    (hkey : s.entity.hasColumn s.entity.primaryKey = true ∨
      ∀ op ∈ pipeline.operations, ¬op.SortsByKey) (e : StoreError) :
    (r.render s pipeline configuration).result ≠ .error (.store e) := by
  intro h
  by_cases hrefuses : pipeline.Refuses
  · obtain ⟨cause, hrender⟩ := render_of_refuses hrefuses r s configuration
    rw [hrender] at h
    cases h
  · obtain ⟨t, hbegin⟩ := Pipeline.exists_beginRender hrefuses
    obtain ⟨hresult, -⟩ := render_of_beginRender hbegin r s configuration
    have hrefusal := refusal_of_carryOut (hresult.symm.trans h)
    obtain ⟨front, hfront, hnames⟩ := names_request t pipeline.operations hr hknown
    have hkey' := hkey.imp_right fun hnever op hop =>
      Operation.not_sortsByKey_optimize r.settings.optimizer t hnever op (hfront op hop)
    have haccepts := (Store.refusal?_of_names hhealthy hnames).1.2 hkey'
    rw [hrefusal] at haccepts
    cases haccepts

end Renderer

namespace Registry

open Operation

/-- A merge into a fresh query has it name columns of the entity, and beside them the primary key if
a sort by it goes in. A store that does not fail accepts the query, unless the key is no column. An
operation that needs an unknown column stays for replay with everything behind it, and makes no
render fail in the store. -/
theorem merge_names_columns {s : Store ρ} (hhealthy : s.failure? = none) :
    (∀ ops : List (Operation ρ),
      let p := (standard s.entity).merge ops (.ofCriteria (.new s.entity.name))
      let front := ops.take (p.outcome.removed + p.outcome.replaced)
      (∀ column ∈ p.target.criteria.restrictedColumns, s.entity.hasColumn column = true) ∧
        (∀ t ∈ p.target.criteria.order, s.entity.hasColumn t.column = true ∨
          t.column = s.entity.primaryKey ∧ ∃ op ∈ front, op.SortsByKey) ∧
        (s.refusal? p.target.criteria = none ↔
          s.entity.hasColumn s.entity.primaryKey = true ∨ ∀ op ∈ front, ¬op.SortsByKey) ∧
        (∀ e, s.refusal? p.target.criteria = some e →
          e = .unknownColumn s.entity.name s.entity.primaryKey) ∧
        ∀ op rest, op :: rest <:+ ops → op.NeedsUnknown s.entity → op :: rest <:+ p.operations) ∧
    ∀ (r : Renderer ρ) (pipeline : Pipeline ρ) (configuration : StreamConfiguration),
      r.IsStandard s.entity → configuration.KnownTo s.entity →
      (s.entity.hasColumn s.entity.primaryKey = true ∨
        ∀ op ∈ pipeline.operations, ¬op.SortsByKey) →
      ∀ e, (r.render s pipeline configuration).result ≠ .error (.store e) := by
  refine ⟨?_, fun r pipeline configuration hr hknown hkey =>
    Renderer.render_ne_store_error hr hhealthy hknown hkey⟩
  intro ops p front
  have hstandard : StreamConfiguration.standard.KnownTo s.entity := ⟨nofun, nofun⟩
  have hfresh : (Criteria.new s.entity.name).Names s.entity [] :=
    Store.names_criteria hstandard
  have hnames : p.target.criteria.Names s.entity front := names_merge s.entity hfresh
  obtain ⟨haccepts, hrefuses⟩ := Store.refusal?_of_names hhealthy hnames
  refine ⟨hnames.restricted, fun t ht => ?_, haccepts, hrefuses, fun op rest hop hneeds => ?_⟩
  · exact hnames.referenced _ (List.mem_append_right _ (List.mem_map_of_mem ht))
  · exact suffix_merge s.entity hop hneeds _

theorem merge_names_columns_records :
    let E := Entity.ofColumns "loose" "seq" ["k", "v"]
    let s := Store.new E [⟨[("seq", .int 2), ("k", .int 7)]⟩, ⟨[("seq", .int 1), ("k", .int 5)]⟩]
    let bySequence := sortedBy E (.chain [.column "k" .ascending, .column "seq" .descending])
    let front := [filter E (.column ⟨"k", .gt (.int 3)⟩), sortedBy E (.column "v" .ascending)]
    let ops := front ++ [bySequence, sorted E]
    let p := (standard s.entity).merge ops (.ofCriteria (.new s.entity.name))
    let pipeline := Pipeline.ofOperations s.entity (front ++ [bySequence])
    s.failure? = none ∧ bySequence.NeedsUnknown s.entity ∧
      [bySequence, sorted E] <:+ p.operations ∧ s.refusal? p.target.criteria = none ∧
      ∀ e, ((Renderer.new s.entity).render s { pipeline with terminal? := some .collect }
        .standard).result ≠ .error (.store e) := by
  intro E s bySequence front ops p pipeline
  have hhealthy : s.failure? = none := rfl
  have hneeds : bySequence.NeedsUnknown s.entity :=
    have hkey : .column "seq" .descending ∈ (bySequence.comparator?.getD .natural).keys :=
      .tail _ (.head _)
    .sort rfl hkey (by decide)
  have hfront : ∀ op ∈ front, ¬op.SortsByKey := by
    simp only [front, List.forall_mem_cons]
    refine ⟨not_sortsByKey_of_kind (by decide), fun h => ?_, nofun⟩
    cases List.mem_singleton.1 h.2
  have hall : ∀ op ∈ front ++ [bySequence], ¬op.SortsByKey := by
    refine List.forall_mem_append.2 ⟨hfront, List.forall_mem_singleton.2 fun hsorts => ?_⟩
    rcases List.mem_cons.1 hsorts.2 with h | h
    · cases h
    · cases List.mem_singleton.1 h
  obtain ⟨hmerge, hrender⟩ := merge_names_columns hhealthy
  obtain ⟨-, -, haccepts, -, hstays⟩ := hmerge ops
  have hcount : p.outcome.removed + p.outcome.replaced = 2 := by decide
  refine ⟨hhealthy, hneeds, hstays _ _ (List.suffix_append front _) hneeds, ?_, ?_⟩
  · refine haccepts.2 (Or.inr ?_)
    rw [hcount]
    exact hfront
  · exact hrender _ _ .standard ⟨rfl, rfl, rfl⟩ ⟨nofun, nofun⟩ (Or.inr hall)

/-- The natural order goes into the query also where the primary key is no column. -/
theorem merge_names_missing_key :
    let E := Entity.ofColumns "loose" "seq" ["k", "v"]
    let s := Store.new E [⟨[("seq", .int 2)]⟩, ⟨[("seq", .int 1)]⟩]
    let p := (standard E).merge [sorted E] (.ofCriteria (.new E.name))
    p.target.criteria.order = [⟨"seq", .ascending⟩] ∧ E.hasColumn "seq" = false ∧
      (s.execute p.target).answer = .error (.unknownColumn "loose" "seq") := by
  intro E s p
  have hrefused : s.refusal? p.target.criteria = some (.unknownColumn "loose" "seq") := by decide
  exact ⟨by decide, by decide, by rw [Store.execute, hrefused]⟩

end Registry
end Pushdown
