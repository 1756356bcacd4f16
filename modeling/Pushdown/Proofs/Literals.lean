import Pushdown.Proofs.Bindings

/-!
# Literals

A query names its literals by parameters, so its text says nothing of them. To state this, literals
are blanked out: two pipelines of one shape have the same blank, and so have the queries into which
they are merged. All that a text shows is left in the blank.
-/

namespace Pushdown

/-- The test with its operands blanked out. A list keeps its length. -/
def ColumnTest.blank : ColumnTest → ColumnTest
  | eq _ => eq .null
  | ne _ => ne .null
  | lt _ => lt .null
  | lte _ => lte .null
  | gt _ => gt .null
  | gte _ => gte .null
  | isIn vs => isIn (vs.map fun _ => .null)
  | notIn vs => notIn (vs.map fun _ => .null)
  | isNull => isNull
  | isNotNull => isNotNull
  | startsWith _ => startsWith ""
  | endsWith _ => endsWith ""
  | contains _ => contains ""
  | between _ _ i => between .null .null i
  | notBetween _ _ i => notBetween .null .null i

@[simp] lemma ColumnTest.length_operands_blank (test : ColumnTest) :
    test.blank.operands.length = test.operands.length := by
  cases test <;> simp [blank, operands]

def ColumnCondition.blank (c : ColumnCondition) : ColumnCondition := ⟨c.column, c.test.blank⟩

namespace Predicate

variable {ρ : Type}

mutual

/-- The predicate with its operands and closures blanked out. -/
def blank : Predicate ρ → Predicate ρ
  | always => always
  | never => never
  | column c => column c.blank
  | all ps => all (blankEach ps)
  | any ps => any (blankEach ps)
  | not p => not (blank p)
  | closure _ => closure ⟨0, fun _ => false⟩

def blankEach : List (Predicate ρ) → List (Predicate ρ)
  | [] => []
  | p :: ps => blank p :: blankEach ps

end

theorem blankEach_eq (ps : List (Predicate ρ)) : blankEach ps = ps.map blank := by
  induction ps with
  | nil => rfl
  | cons p ps ih => rw [blankEach, ih, List.map_cons]

mutual

theorem conjuncts_blank : ∀ p : Predicate ρ, p.blank.conjuncts = p.conjuncts.map blank
  | always | never | column _ | any _ | not _ | closure _ => rfl
  | all ps => conjunctsOfAll_blank ps

theorem conjunctsOfAll_blank :
    ∀ ps : List (Predicate ρ), conjunctsOfAll (blankEach ps) = (conjunctsOfAll ps).map blank
  | [] => rfl
  | p :: ps => by
    rw [blankEach, conjunctsOfAll, conjuncts_blank p, conjunctsOfAll_blank ps, conjunctsOfAll,
      List.map_append]

end

mutual

theorem isPushable_blank : ∀ p : Predicate ρ, p.blank.isPushable = p.isPushable
  | always | never | column _ | closure _ => rfl
  | all ps | any ps => arePushable_blank ps
  | not p => isPushable_blank p

theorem arePushable_blank :
    ∀ ps : List (Predicate ρ), arePushable (blankEach ps) = arePushable ps
  | [] => rfl
  | p :: ps => by
    rw [blankEach, arePushable, isPushable_blank p, arePushable_blank ps, arePushable]

end

/-- Which conjuncts hold a closure shows in the blank. -/
lemma filter_conjuncts_blank (f : Bool → Bool) (p : Predicate ρ) :
    p.blank.conjuncts.filter (fun q => f q.isPushable) =
      (p.conjuncts.filter fun q => f q.isPushable).map blank := by
  simp [conjuncts_blank, List.filter_map, Function.comp_def, isPushable_blank]

lemma blank_ofConjuncts (ps : List (Predicate ρ)) :
    (ofConjuncts ps).blank = ofConjuncts (blankEach ps) := by
  match ps with
  | [] | [_] | _ :: _ :: _ => rfl

end Predicate

namespace Comparator

variable {ρ : Type}

mutual

/-- The comparator with its closures blanked out. -/
def blank : Comparator ρ → Comparator ρ
  | column name direction => column name direction
  | natural => natural
  | chain ks => chain (blankEach ks)
  | closure _ => closure ⟨0, fun _ _ => .eq⟩

def blankEach : List (Comparator ρ) → List (Comparator ρ)
  | [] => []
  | k :: ks => blank k :: blankEach ks

end

mutual

theorem isPushable_blank : ∀ c : Comparator ρ, c.blank.isPushable = c.isPushable
  | column .. | natural | closure _ => rfl
  | chain ks => arePushable_blank ks

theorem arePushable_blank :
    ∀ ks : List (Comparator ρ), arePushable (blankEach ks) = arePushable ks
  | [] => rfl
  | k :: ks => by
    rw [blankEach, arePushable, isPushable_blank k, arePushable_blank ks, arePushable]

end

variable (E : Entity ρ)

mutual

theorem orderTerms_blank :
    ∀ c : Comparator ρ, Lowering.orderTerms E c.blank = Lowering.orderTerms E c
  | column .. | natural | closure _ => rfl
  | chain ks => orderTermsOfChain_blank ks

theorem orderTermsOfChain_blank :
    ∀ ks : List (Comparator ρ),
      Lowering.orderTermsOfChain E (blankEach ks) = Lowering.orderTermsOfChain E ks
  | [] => rfl
  | k :: ks => by
    rw [blankEach, Lowering.orderTermsOfChain, orderTerms_blank k, orderTermsOfChain_blank ks,
      Lowering.orderTermsOfChain]

end

end Comparator

/-- The argument with its literals and closures blanked out. Counts stay. -/
def Argument.blank {ρ : Type} : Argument ρ → Argument ρ
  | predicate p => predicate p.blank
  | comparator c => comparator c.blank
  | count n => count n
  | mapper _ => mapper ⟨0, id⟩
  | flatMapper _ => flatMapper ⟨0, fun _ => []⟩
  | observer _ => observer ⟨0, ""⟩

namespace Operation

variable {ρ : Type}

/-- The operation with its literals and closures blanked out, and without its transform. -/
def blank (op : Operation ρ) : Operation ρ := ⟨op.kind, op.arguments.map Argument.blank, none⟩

lemma predicate?_blank (op : Operation ρ) :
    op.blank.predicate? = op.predicate?.map Predicate.blank := by
  simp only [predicate?, blank, List.findSome?_map, List.map_findSome?]
  congr 1
  funext a
  cases a <;> rfl

lemma comparator?_blank (op : Operation ρ) :
    op.blank.comparator? = op.comparator?.map Comparator.blank := by
  simp only [comparator?, blank, List.findSome?_map, List.map_findSome?]
  congr 1
  funext a
  cases a <;> rfl

lemma count?_blank (op : Operation ρ) : op.blank.count? = op.count? := by
  simp only [count?, blank, List.findSome?_map]
  congr 1
  funext a
  cases a <;> rfl

end Operation

namespace Restriction

mutual

/-- The restriction with its operands blanked out. The parameters keep their names. -/
def blank : Restriction → Restriction
  | always => always
  | never => never
  | compare c names => compare c.blank names
  | all rs => all (blankEach rs)
  | any rs => any (blankEach rs)
  | not r => not (blank r)

def blankEach : List Restriction → List Restriction
  | [] => []
  | r :: rs => blank r :: blankEach rs

end

theorem blankEach_eq (rs : List Restriction) : blankEach rs = rs.map blank := by
  induction rs with
  | nil => rfl
  | cons r rs ih => rw [blankEach, ih, List.map_cons]

lemma blank_and (r s : Restriction) : (r.and s).blank = r.blank.and s.blank := by
  have hconjuncts (r : Restriction) : r.blank.conjuncts = r.conjuncts.map blank := by
    cases r with
    | all rs => rw [blank, conjuncts, blankEach_eq, conjuncts]
    | _ => rfl
  rw [and, and, blank, blankEach_eq, List.map_append, hconjuncts, hconjuncts]

lemma blank_ofConjuncts (rs : List Restriction) :
    (ofConjuncts rs).blank = ofConjuncts (blankEach rs) := by
  match rs with
  | [] | [_] | _ :: _ :: _ => rfl

/-- The text of a comparison is made of names. -/
lemma comparisonText_blank (owner : String) (c : ColumnCondition) (names : List String) :
    comparisonText owner c.blank names = comparisonText owner c names := by
  obtain ⟨column, test⟩ := c
  cases test <;> rfl

mutual

theorem text_blank (owner : String) : ∀ r : Restriction, r.blank.text owner = r.text owner
  | always | never => rfl
  | compare c names => comparisonText_blank owner c names
  | all rs | any rs => by rw [blank, text, texts_blank owner rs, text]
  | not r => by rw [blank, text, text_blank owner r, text]

theorem texts_blank (owner : String) :
    ∀ rs : List Restriction, texts owner (blankEach rs) = texts owner rs
  | [] => rfl
  | r :: rs => by rw [blankEach, texts, text_blank owner r, texts_blank owner rs, texts]

end

end Restriction

def Binding.blank (b : Binding) : Binding := ⟨b.name, .null⟩

/-- The criteria with the operands of the restriction and the values of the parameters blanked
out. -/
def Criteria.blank (c : Criteria) : Criteria :=
  { c with
    restriction? := c.restriction?.map Restriction.blank
    parameters := c.parameters.map Binding.blank }

def Query.blank (q : Query) : Query := { q with criteria := q.criteria.blank }

/-- Literals do not show in the text of a query. -/
theorem Query.text_blank (q : Query) : q.blank.text = q.text := by
  have hcriteria : q.criteria.blank.text = q.criteria.text := by
    unfold Criteria.text Criteria.blank
    cases q.criteria.restriction? with
    | none => rfl
    | some r =>
      simp only [Option.map_some, Restriction.text_blank]
      rfl
  rw [Query.text, Query.text, ← hcriteria]
  rfl

lemma Criteria.map_name_parameters_blank (c : Criteria) :
    c.blank.parameters.map Binding.name = c.parameters.map Binding.name := by
  simp [blank, Binding.blank, Function.comp_def]

lemma Criteria.blank_restrict (c : Criteria) (r : Restriction) (bindings : List Binding) :
    (c.restrict r bindings).blank = c.blank.restrict r.blank (bindings.map Binding.blank) := by
  unfold restrict blank
  cases c.restriction? with
  | none => simp
  | some old => simp [Restriction.blank_and]

namespace Lowering

variable {ρ : Type} {E : Entity ρ}

/-- How many operands a predicate has shows in its blank. -/
lemma length_operandsOfEach (cs : List ColumnCondition) :
    (operandsOfEach (cs.map ColumnCondition.blank)).length = (operandsOfEach cs).length := by
  simp [operandsOfEach, ColumnCondition.blank, List.length_flatMap, Function.comp_def]

/-- The names of parameters follow from their number. -/
lemma map_blank_bind (used : Nat) (vs : List Value) :
    (bind used vs).map Binding.blank = bind used (List.replicate vs.length .null) := by
  induction vs generalizing used with
  | nil => rfl
  | cons v vs ih => rw [bind, List.map_cons, ih, List.length_cons, List.replicate_succ, bind]; rfl

end Lowering

namespace Predicate

variable {ρ : Type}

mutual

theorem conditions_blank :
    ∀ p : Predicate ρ, p.blank.conditions = p.conditions.map ColumnCondition.blank
  | always | never | column _ | closure _ => rfl
  | all ps | any ps => conditionsOfEach_blank ps
  | not p => conditions_blank p

theorem conditionsOfEach_blank :
    ∀ ps : List (Predicate ρ),
      conditionsOfEach (blankEach ps) = (conditionsOfEach ps).map ColumnCondition.blank
  | [] => rfl
  | p :: ps => by
    rw [blankEach, conditionsOfEach, conditions_blank p, conditionsOfEach_blank ps,
      conditionsOfEach, List.map_append]

end

lemma length_operands_blank (p : Predicate ρ) :
    p.blank.operands.length = p.operands.length := by
  rw [operands, conditions_blank, Lowering.length_operandsOfEach, operands]

mutual

/-- A predicate is stated by a restriction of the same shape. -/
theorem blank_stated (used : Nat) :
    ∀ p : Predicate ρ, (p.stated used).blank = p.blank.stated used
  | always | never | closure _ => rfl
  | column c => by
    rw [stated, Restriction.blank, blank, stated, ColumnCondition.blank,
      ColumnTest.length_operands_blank]
  | all ps | any ps => by rw [stated, Restriction.blank, blank_statedEach used ps, blank, stated]
  | not p => by rw [stated, Restriction.blank, blank_stated used p, blank, stated]

theorem blank_statedEach (used : Nat) :
    ∀ ps : List (Predicate ρ),
      Restriction.blankEach (statedEach used ps) = statedEach used (blankEach ps)
  | [] => rfl
  | p :: ps => by
    rw [statedEach, Restriction.blankEach, blank_stated used p, blank_statedEach _ ps, blankEach,
      statedEach, length_operands_blank]

end

end Predicate

namespace Lowering

variable {ρ : Type} {E : Entity ρ}

/-- What the blank of a lowered list tells follows from the blank of the predicates. -/
lemma lowerList_blank {used : Nat} {ps : List (Predicate ρ)} {rs : List Restriction × List Binding}
    (h : lowerList E used ps = .ok rs) :
    let blanks := ps.map Predicate.blank
    Restriction.blankEach rs.1 = Predicate.statedEach used blanks ∧
      rs.2.map Binding.blank =
        bind used (List.replicate (Predicate.operandsOfEach blanks).length .null) := by
  intro blanks
  obtain rfl := lowerList_eq used ps h
  have hblanks : blanks = Predicate.blankEach ps := (Predicate.blankEach_eq ps).symm
  have hlength : (Predicate.operandsOfEach (Predicate.blankEach ps)).length =
      (Predicate.operandsOfEach ps).length := by
    rw [Predicate.operandsOfEach, Predicate.conditionsOfEach_blank, length_operandsOfEach,
      Predicate.operandsOfEach]
  rw [hblanks, hlength]
  exact ⟨Predicate.blank_statedEach used ps, map_blank_bind used _⟩

end Lowering

/-- The verdict with its literals blanked out, where `f` blanks out those of a target. -/
def Verdict.blank {ρ σ : Type} (f : σ → σ) : Verdict ρ σ → Verdict ρ σ
  | declines => declines
  | fails e => fails e
  | absorbs target => absorbs (f target)
  | divides target residual => divides (f target) residual.blank

/-- Two verdicts with the same blank, unless one of them is a failure. -/
def Verdict.Alike {ρ σ : Type} (f : σ → σ) (v w : Verdict ρ σ) : Prop :=
  (∀ e, v ≠ fails e) → (∀ e, w ≠ fails e) → v.blank f = w.blank f

def Absorption.blank {ρ σ : Type} (f : σ → σ) (a : Absorption ρ σ) : Absorption ρ σ :=
  ⟨f a.target, a.absorbed, a.residual?.map Operation.blank, a.rest.map Operation.blank,
    a.failure?⟩

lemma Absorption.left_blank {ρ σ : Type} (f : σ → σ) (a : Absorption ρ σ) :
    (a.blank f).left = a.left.map Operation.blank := by
  unfold left blank
  cases a.residual? <;> rfl

/-- How much is absorbed shows in the blank. -/
lemma Absorption.counts_of_blank_eq {ρ σ : Type} {f : σ → σ} {a a' : Absorption ρ σ}
    (h : a.blank f = a'.blank f) :
    a.absorbed = a'.absorbed ∧ a.residual?.toList.length = a'.residual?.toList.length := by
  obtain ⟨-, habsorbed, hresidual, -⟩ := Absorption.mk.inj h
  refine ⟨habsorbed, ?_⟩
  have hlength := congrArg (fun op? => op?.toList.length) hresidual
  simpa [Option.toList_map] using hlength

/-- If verdicts on one shape are alike, so are two absorptions of one shape that do not fail. -/
lemma Absorption.absorb_blank_eq {ρ σ : Type} {verdict : Operation ρ → σ → Verdict ρ σ}
    {f : σ → σ}
    (halike : ∀ op op' target target', op.blank = op'.blank → f target = f target' →
      (verdict op target).Alike f (verdict op' target'))
    {ops ops' : List (Operation ρ)} {target target' : σ}
    (hops : ops.map Operation.blank = ops'.map Operation.blank) (htarget : f target = f target')
    (h : (absorb verdict ops target).failure? = none)
    (h' : (absorb verdict ops' target').failure? = none) :
    (absorb verdict ops target).blank f = (absorb verdict ops' target').blank f := by
  induction ops generalizing ops' target target' with
  | nil =>
    obtain rfl := List.map_eq_nil_iff.1 hops.symm
    simp only [absorb, blank, htarget]
  | cons op ops ih =>
    cases ops' with
    | nil => cases hops
    | cons op' ops' =>
      obtain ⟨hop, hrest⟩ := List.cons.inj hops
      have halike' := halike op op' target target' hop htarget
      rw [absorb] at h h' ⊢
      rw [absorb]
      generalize verdict op target = v at h halike' ⊢
      generalize verdict op' target' = v' at h' halike' ⊢
      have hv : v.blank f = v'.blank f :=
        halike' (fun e he => by rw [he] at h; cases h) (fun e he => by rw [he] at h'; cases h')
      cases v with
      | declines =>
        cases v' with
        | declines => simp only [blank, htarget, hops]
        | _ => cases hv
      | fails e => cases h
      | absorbs next =>
        cases v' with
        | absorbs next' =>
          have hnext := ih hrest (Verdict.absorbs.inj hv) h h'
          simp only [blank, Absorption.mk.injEq] at hnext ⊢
          exact ⟨hnext.1, congrArg Nat.succ hnext.2.1, hnext.2.2⟩
        | _ => cases hv
      | divides next residual =>
        cases v' with
        | divides next' residual' =>
          obtain ⟨hnext, hresidual⟩ := Verdict.divides.inj hv
          simp only [blank, hnext, hrest, Option.map_some, hresidual]
        | _ => cases hv

namespace Verdict

variable {ρ : Type} (E : Entity ρ)

/-- What of a conjunction goes into criteria, and what stays behind, is of one shape. -/
lemma onConjuncts_alike {c c' : Criteria} (hc : c.blank = c'.blank)
    {ps ps' rest rest' : List (Predicate ρ)}
    (hps : ps.map Predicate.blank = ps'.map Predicate.blank)
    (hrest : rest.map Predicate.blank = rest'.map Predicate.blank) :
    (onConjuncts E c ps rest).Alike Criteria.blank (onConjuncts E c' ps' rest') := by
  intro h h'
  have hused : c.parameters.length = c'.parameters.length := by
    simpa [Criteria.blank] using congrArg (fun c => c.parameters.length) hc
  have hnone : ps.isEmpty = ps'.isEmpty := by
    simpa using congrArg List.isEmpty hps
  have hwhole : rest.isEmpty = rest'.isEmpty := by
    simpa using congrArg List.isEmpty hrest
  unfold onConjuncts at h h' ⊢
  rw [← hnone, ← hused, ← hwhole] at h' ⊢
  split at h <;> rename_i hempty
  · rw [if_pos hempty, if_pos hempty]
  · rw [if_neg hempty] at h' ⊢
    rw [if_neg hempty]
    cases hlower : Lowering.lowerList E c.parameters.length ps with
    | error e =>
      rw [hlower] at h
      exact absurd rfl (h e)
    | ok r =>
      cases hlower' : Lowering.lowerList E c.parameters.length ps' with
      | error e =>
        rw [hlower'] at h'
        exact absurd rfl (h' e)
      | ok r' =>
        obtain ⟨hrestrictions, hbindings⟩ := Lowering.lowerList_blank hlower
        obtain ⟨hrestrictions', hbindings'⟩ := Lowering.lowerList_blank hlower'
        rw [hps, ← hrestrictions'] at hrestrictions
        rw [hps, ← hbindings'] at hbindings
        have htarget : (c.restrict (Restriction.ofConjuncts r.1) r.2).blank =
            (c'.restrict (Restriction.ofConjuncts r'.1) r'.2).blank := by
          rw [Criteria.blank_restrict, Criteria.blank_restrict, Restriction.blank_ofConjuncts,
            Restriction.blank_ofConjuncts, hc, hrestrictions, hbindings]
        have hresidual : (Operation.filter E (Predicate.ofConjuncts rest)).blank =
            (Operation.filter E (Predicate.ofConjuncts rest')).blank := by
          simp only [Operation.filter, Operation.blank, List.map_cons, Argument.blank,
            Predicate.blank_ofConjuncts, Predicate.blankEach_eq, hrest]
        simp only
        split
        · exact congrArg absorbs htarget
        · exact congrArg₂ divides htarget hresidual

lemma onFilter_alike {op op' : Operation ρ} (hop : op.blank = op'.blank) {c c' : Criteria}
    (hc : c.blank = c'.blank) :
    (onFilter E op c).Alike Criteria.blank (onFilter E op' c') := by
  have hwindowed : c.blank.windowed = c'.blank.windowed := congrArg Criteria.windowed hc
  change c.windowed = c'.windowed at hwindowed
  have hpredicate : op.predicate?.map Predicate.blank = op'.predicate?.map Predicate.blank := by
    rw [← Operation.predicate?_blank, hop, Operation.predicate?_blank]
  unfold onFilter
  rw [← hwindowed]
  cases c.windowed with
  | true => exact fun _ _ => rfl
  | false =>
    cases hp : op.predicate? with
    | none =>
      rw [hp] at hpredicate
      rw [Option.map_eq_none_iff.1 hpredicate.symm]
      exact fun _ _ => rfl
    | some p =>
      rw [hp] at hpredicate
      obtain ⟨p', hp', hblank⟩ := Option.map_eq_some_iff.1 hpredicate.symm
      have hconjuncts (f : Bool → Bool) :
          (p.conjuncts.filter fun q => f q.isPushable).map Predicate.blank =
            (p'.conjuncts.filter fun q => f q.isPushable).map Predicate.blank := by
        rw [← Predicate.filter_conjuncts_blank, ← Predicate.filter_conjuncts_blank, hblank]
      simp only [hp', List.partition_eq_filter_filter]
      exact onConjuncts_alike E hc (hconjuncts id) (hconjuncts not)

lemma onSort_blank (op : Operation ρ) (c : Criteria) :
    (onSort E op c).blank Criteria.blank = onSort E op.blank c.blank := by
  have hcomparator : op.blank.comparator?.getD .natural =
      (op.comparator?.getD .natural).blank := by
    rw [Operation.comparator?_blank]
    cases op.comparator? <;> rfl
  unfold onSort
  simp only [hcomparator, Comparator.isPushable_blank, Comparator.orderTerms_blank]
  have hwindowed : c.blank.windowed = c.windowed := rfl
  rw [hwindowed]
  split
  · rfl
  · cases Lowering.orderTerms E (op.comparator?.getD .natural) <;> rfl

lemma onDistinct_blank (op : Operation ρ) (c : Criteria) :
    (onDistinct op c).blank Criteria.blank = onDistinct op.blank c.blank := by
  have harguments : op.blank.arguments.isEmpty = op.arguments.isEmpty := by
    simp [Operation.blank]
  have hwindowed : c.blank.windowed = c.windowed := rfl
  unfold onDistinct
  rw [harguments, hwindowed]
  split <;> rfl

lemma onQuery_blank (op : Operation ρ) (q : Query) :
    (onQuery op q).blank Query.blank = onQuery op.blank q.blank := by
  have hkind : op.blank.kind = op.kind := rfl
  unfold onQuery onSkip onLimit
  rw [hkind, Operation.count?_blank]
  split
  · cases op.count? with
    | none => rfl
    | some n =>
      refine congrArg absorbs ?_
      unfold Query.skipping
      simp only [Query.setFirstResult, Query.blank]
      cases q.maxResults? <;> rfl
  · cases op.count? <;> rfl
  · rfl

lemma onCriteria_alike (op op' : Operation ρ) (c c' : Criteria) (hop : op.blank = op'.blank)
    (hc : c.blank = c'.blank) :
    (onCriteria E op c).Alike Criteria.blank (onCriteria E op' c') := by
  have hkind : op.blank.kind = op'.blank.kind := congrArg Operation.kind hop
  change op.kind = op'.kind at hkind
  unfold onCriteria
  rw [← hkind]
  split
  · exact onFilter_alike E hop hc
  · exact fun _ _ => by rw [onSort_blank, onSort_blank, hop, hc]
  · exact fun _ _ => by rw [onDistinct_blank, onDistinct_blank, hop, hc]
  · exact fun _ _ => rfl

lemma onQuery_alike (op op' : Operation ρ) (q q' : Query) (hop : op.blank = op'.blank)
    (hq : q.blank = q'.blank) : (onQuery op q).Alike Query.blank (onQuery op' q') :=
  fun _ _ => by rw [onQuery_blank, onQuery_blank, hop, hq]

end Verdict

namespace Registry

variable {ρ : Type} (E : Entity ρ)

/-- A merge without failures has none in its criteria pass. -/
lemma failure?_absorbCriteria {ops : List (Operation ρ)} {q : Query}
    (h : ((standard E).merge ops q).outcome.failures = []) :
    (absorbCriteria E ops q.criteria).failure? = none := by
  obtain ⟨-, -, -, -, hfailures⟩ := mergeCriteria_standard E ops q.criteria
  rw [merge, MergeOutcome.followedBy, List.append_eq_nil_iff, hfailures] at h
  exact Option.toList_eq_nil_iff.1 h.1

/-- Merging what differs in literals alone gives queries that differ in literals alone: they have
the same text and the same parameter names, and the same operations are absorbed. -/
theorem text_merge_of_blank_eq {ops ops' : List (Operation ρ)}
    (hops : ops.map Operation.blank = ops'.map Operation.blank) (q : Query)
    (h : ((standard E).merge ops q).outcome.failures = [])
    (h' : ((standard E).merge ops' q).outcome.failures = []) :
    let p := (standard E).merge ops q
    let p' := (standard E).merge ops' q
    p.target.text = p'.target.text ∧
      p.target.criteria.parameters.map Binding.name =
        p'.target.criteria.parameters.map Binding.name ∧
      p.outcome.removed = p'.outcome.removed ∧ p.outcome.replaced = p'.outcome.replaced ∧
      p.operations.map Operation.blank = p'.operations.map Operation.blank ∧
      p.target.blank = p'.target.blank := by
  intro p p'
  let a := absorbCriteria E ops q.criteria
  let a' := absorbCriteria E ops' q.criteria
  let b := absorbQuery a.left { q with criteria := a.target }
  let b' := absorbQuery a'.left { q with criteria := a'.target }
  obtain ⟨hleft, htarget, hremoved, hreplaced⟩ := merge_standard E ops q
  obtain ⟨hleft', htarget', hremoved', hreplaced'⟩ := merge_standard E ops' q
  have hfirst : a.blank Criteria.blank = a'.blank Criteria.blank :=
    Absorption.absorb_blank_eq (Verdict.onCriteria_alike E) hops rfl
      (failure?_absorbCriteria E h) (failure?_absorbCriteria E h')
  have hbetween : a.left.map Operation.blank = a'.left.map Operation.blank := by
    rw [← Absorption.left_blank Criteria.blank, hfirst, Absorption.left_blank]
  have hquery : Query.blank { q with criteria := a.target } =
      Query.blank { q with criteria := a'.target } := by
    have hcriteria : a.target.blank = a'.target.blank := congrArg Absorption.target hfirst
    simp only [Query.blank, hcriteria]
  have hsecond : b.blank Query.blank = b'.blank Query.blank :=
    Absorption.absorb_blank_eq Verdict.onQuery_alike hbetween hquery
      (Absorption.failure?_eq_none (fun _ _ _ => Verdict.onQuery_ne_fails) _ _)
      (Absorption.failure?_eq_none (fun _ _ _ => Verdict.onQuery_ne_fails) _ _)
  have hblank : p.target.blank = p'.target.blank := by
    rw [show p.target = b.target from htarget, show p'.target = b'.target from htarget']
    exact congrArg Absorption.target hsecond
  have hfirstCounts := Absorption.counts_of_blank_eq hfirst
  have hsecondCounts := Absorption.counts_of_blank_eq hsecond
  refine ⟨?_, ?_, ?_, ?_, ?_, hblank⟩
  · rw [← Query.text_blank, hblank, Query.text_blank]
  · have hnames := congrArg (fun q => q.criteria.parameters.map Binding.name) hblank
    simpa only [Query.blank, Criteria.map_name_parameters_blank] using hnames
  · calc p.outcome.removed
        = a.absorbed + b.absorbed := hremoved
      _ = a'.absorbed + b'.absorbed := by rw [hfirstCounts.1, hsecondCounts.1]
      _ = p'.outcome.removed := hremoved'.symm
  · calc p.outcome.replaced
        = a.residual?.toList.length + b.residual?.toList.length := hreplaced
      _ = a'.residual?.toList.length + b'.residual?.toList.length := by
        rw [hfirstCounts.2, hsecondCounts.2]
      _ = p'.outcome.replaced := hreplaced'.symm
  · rw [show p.operations = b.left from hleft, show p'.operations = b'.left from hleft',
      ← Absorption.left_blank Query.blank, hsecond, Absorption.left_blank]

theorem text_merge_of_blank_eq_records :
    let E := Entity.ofColumns "User" "id" ["id", "name"]
    let even : Predicate Record := .closure ⟨0, fun r => r.cells.length % 2 == 0⟩
    let ops (ids : List Value) (name : String) (first : Value) : List (Operation Record) :=
      [.filter E (.all [.column ⟨"id", .isIn ids⟩, .not (.column ⟨"name", .startsWith name⟩)]),
        .sortedBy E (.column "name" .descending),
        .filter E (.all [even, .column ⟨"id", .between first (.int 9) .standard⟩]), .limit 5]
    let plain := ops [.int 1, .int 2] "a" (.int 3)
    let hostile := ops [.text "1) OR (1 = 1", .int 2] "' OR '%' = '" (.text ":p1")
    let q := Query.ofCriteria (.new "User")
    let p := (standard E).merge plain q
    let p' := (standard E).merge hostile q
    plain.map Operation.blank = hostile.map Operation.blank ∧ p.outcome.failures = [] ∧
      p'.outcome.failures = [] ∧ p.target.text = p'.target.text ∧
      p'.target.text = "SELECT u FROM User u WHERE (u.id IN (:p1, :p2) AND " ++
        "NOT u.name LIKE :p3 ESCAPE '\\' AND (u.id >= :p4 AND u.id < :p5)) ORDER BY u.name DESC" ∧
      p.outcome.removed = p'.outcome.removed := by
  intro E even ops plain hostile q p p'
  have hops : plain.map Operation.blank = hostile.map Operation.blank := rfl
  have h : p.outcome.failures = [] := by decide
  have h' : p'.outcome.failures = [] := by decide
  obtain ⟨htext, -, hremoved, -⟩ := text_merge_of_blank_eq E hops q h h'
  exact ⟨hops, h, h', htext, by decide, hremoved⟩

end Registry
end Pushdown
