import Pushdown.Proofs.Bindings

/-!
# Exact lowering

The leaves of a predicate alone decide whether it has a form in a query. A leaf is at fault if it is
a closure, if the entity does not have its column, or if a query cannot compare with its operands.
Without such a leaf lowering succeeds, and states the predicate; else it fails with the fault of the
first one.
-/

namespace Pushdown

lemma Value.isNull_iff {v : Value} : v.isNull = true ↔ v = .null := by
  cases v <;> simp [Value.isNull]

namespace ColumnTest

/-- The values with which a test compares a cell one by one. -/
def literals : ColumnTest → List Value
  | eq v | ne v | lt v | lte v | gt v | gte v => [v]
  | isIn vs | notIn vs => vs
  | _ => []

/-- The ends of a range. -/
def bounds : ColumnTest → List Value
  | between start last _ | notBetween start last _ => [start, last]
  | _ => []

end ColumnTest

/-- What a predicate is built from with its connectives, its constants aside. -/
inductive Leaf
  | condition (c : ColumnCondition)
  | closure

namespace Predicate

variable {ρ : Type}

mutual

/-- The leaves of a predicate, from left to right. -/
def leaves : Predicate ρ → List Leaf
  | always | never => []
  | column c => [.condition c]
  | all ps | any ps => leavesOfEach ps
  | not p => leaves p
  | closure _ => [.closure]

def leavesOfEach : List (Predicate ρ) → List Leaf
  | [] => []
  | p :: ps => leaves p ++ leavesOfEach ps

end

lemma leavesOfEach_append (ps qs : List (Predicate ρ)) :
    leavesOfEach (ps ++ qs) = leavesOfEach ps ++ leavesOfEach qs := by
  induction ps with
  | nil => rfl
  | cons p ps ih => rw [List.cons_append, leavesOfEach, ih, leavesOfEach, List.append_assoc]

mutual

/-- Flattening a conjunction keeps its leaves. -/
theorem leavesOfEach_conjuncts : ∀ p : Predicate ρ, leavesOfEach p.conjuncts = p.leaves
  | always | never | column _ | any _ | not _ | closure _ => List.append_nil _
  | all ps => leavesOfEach_conjunctsOfAll ps

theorem leavesOfEach_conjunctsOfAll :
    ∀ ps : List (Predicate ρ), leavesOfEach (conjunctsOfAll ps) = leavesOfEach ps
  | [] => rfl
  | p :: ps => by
    rw [conjunctsOfAll, leavesOfEach_append, leavesOfEach_conjuncts p,
      leavesOfEach_conjunctsOfAll ps, leavesOfEach]

end

mutual

theorem condition_mem_leaves {c : ColumnCondition} :
    ∀ p : Predicate ρ, .condition c ∈ p.leaves ↔ c ∈ p.conditions
  | always | never | column _ | closure _ => by simp [leaves, conditions]
  | all ps | any ps => condition_mem_leavesOfEach ps
  | not p => condition_mem_leaves p

theorem condition_mem_leavesOfEach {c : ColumnCondition} :
    ∀ ps : List (Predicate ρ), .condition c ∈ leavesOfEach ps ↔ c ∈ conditionsOfEach ps
  | [] => by simp [leavesOfEach, conditionsOfEach]
  | p :: ps => by
    rw [leavesOfEach, conditionsOfEach, List.mem_append, List.mem_append, condition_mem_leaves p,
      condition_mem_leavesOfEach ps]

end

mutual

theorem closure_notMem_leaves : ∀ p : Predicate ρ, .closure ∉ p.leaves ↔ p.isPushable = true
  | always | never | column _ | closure _ => by simp [leaves, isPushable]
  | all ps | any ps => closure_notMem_leavesOfEach ps
  | not p => closure_notMem_leaves p

theorem closure_notMem_leavesOfEach :
    ∀ ps : List (Predicate ρ), .closure ∉ leavesOfEach ps ↔ arePushable ps = true
  | [] => by simp [leavesOfEach, arePushable]
  | p :: ps => by
    rw [leavesOfEach, arePushable, List.mem_append, not_or, closure_notMem_leaves p,
      closure_notMem_leavesOfEach ps, Bool.and_eq_true]

end

end Predicate

variable {ρ : Type}

/-- Why a leaf has no form in a query over `E`. The operands of a condition matter only once its
column is known. -/
inductive Fault (E : Entity ρ) : Leaf → LoweringError → Prop
  | closure : Fault E .closure .closure
  | unknownColumn {c : ColumnCondition} (hcolumn : c.column ∉ E.columns) :
      Fault E (.condition c) (.unknownColumn E.name c.column)
  | nullLiteral {c : ColumnCondition} (hcolumn : c.column ∈ E.columns)
      (hnull : .null ∈ c.test.literals) :
      Fault E (.condition c) (.nullLiteral c.column c.test.name)
  | emptyList {c : ColumnCondition} (hcolumn : c.column ∈ E.columns)
      (hempty : c.test = .isIn [] ∨ c.test = .notIn []) :
      Fault E (.condition c) (.emptyList c.column c.test.name)
  | nullBound {c : ColumnCondition} (hcolumn : c.column ∈ E.columns)
      (hnull : .null ∈ c.test.bounds) : Fault E (.condition c) (.nullBound c.column)

/-- A condition that has a form in a query over `E`. -/
structure ColumnCondition.IsStatable (E : Entity ρ) (c : ColumnCondition) : Prop where
  column_mem : c.column ∈ E.columns
  literals_ne_null : .null ∉ c.test.literals
  list_ne_nil : c.test ≠ .isIn [] ∧ c.test ≠ .notIn []
  bounds_ne_null : .null ∉ c.test.bounds

lemma ColumnCondition.isStatable_iff {E : Entity ρ} {c : ColumnCondition} :
    c.IsStatable E ↔ ∀ e, ¬ Fault E (.condition c) e := by
  constructor
  · intro h e hfault
    cases hfault with
    | unknownColumn hcolumn => exact hcolumn h.column_mem
    | nullLiteral _ hnull => exact h.literals_ne_null hnull
    | emptyList _ hempty => exact hempty.elim h.list_ne_nil.1 h.list_ne_nil.2
    | nullBound _ hnull => exact h.bounds_ne_null hnull
  · intro h
    have hcolumn : c.column ∈ E.columns := by
      by_contra hcolumn
      exact h _ (.unknownColumn hcolumn)
    exact
      { column_mem := hcolumn
        literals_ne_null := fun hnull => h _ (.nullLiteral hcolumn hnull)
        list_ne_nil := ⟨fun hempty => h _ (.emptyList hcolumn (.inl hempty)),
          fun hempty => h _ (.emptyList hcolumn (.inr hempty))⟩
        bounds_ne_null := fun hnull => h _ (.nullBound hcolumn hnull) }

namespace Lowering

variable {E : Entity ρ}

lemma boundValues_eq_error_iff {c : ColumnCondition} {e : LoweringError} :
    boundValues c = .error e ↔
      .null ∈ c.test.literals ∧ .nullLiteral c.column c.test.name = e ∨
        (c.test = .isIn [] ∨ c.test = .notIn []) ∧ .emptyList c.column c.test.name = e ∨
          .null ∈ c.test.bounds ∧ .nullBound c.column = e := by
  obtain ⟨column, test⟩ := c
  cases test with
  | eq v | ne v | lt v | lte v | gt v | gte v =>
    cases v <;> simp [boundValues, Value.isNull, ColumnTest.literals, ColumnTest.bounds]
  | isIn vs | notIn vs =>
    have hmem : vs.any Value.isNull = true ↔ .null ∈ vs := by simp [Value.isNull_iff]
    cases vs with
    | nil => simp [boundValues, ColumnTest.literals, ColumnTest.bounds]
    | cons v vs =>
      by_cases hnull : .null ∈ v :: vs
      · simp [boundValues, ColumnTest.literals, ColumnTest.bounds, hmem.2 hnull, hnull]
      · simp [boundValues, ColumnTest.literals, ColumnTest.bounds, hmem.not.2 hnull, hnull]
  | between start last i | notBetween start last i =>
    have hmem : (start.isNull || last.isNull) = true ↔ .null ∈ [start, last] := by
      cases start <;> cases last <;> simp [Value.isNull]
    by_cases hnull : .null ∈ [start, last]
    · simp only [boundValues, ColumnTest.literals, ColumnTest.bounds, hmem.2 hnull, hnull]
      simp
    · simp only [boundValues, ColumnTest.literals, ColumnTest.bounds, hmem.not.2 hnull, hnull]
      simp
  | isNull | isNotNull | startsWith | endsWith | contains =>
    simp [boundValues, ColumnTest.literals, ColumnTest.bounds]

lemma boundValues_of_isStatable {c : ColumnCondition} (h : c.IsStatable E) :
    boundValues c = .ok c.test.operands := by
  cases hvalues : boundValues c with
  | error e =>
    rcases boundValues_eq_error_iff.1 hvalues with ⟨hnull, -⟩ | ⟨hempty, -⟩ | ⟨hnull, -⟩
    · exact absurd hnull h.literals_ne_null
    · exact absurd hempty (not_or.2 h.list_ne_nil)
    · exact absurd hnull h.bounds_ne_null
  | ok vs => rw [boundValues_eq hvalues]

/-- The first thing that is wrong with a leaf: its column comes before its operands. -/
def fault? (E : Entity ρ) : Leaf → Option LoweringError
  | .closure => some .closure
  | .condition c =>
    match checkColumn E c.column, boundValues c with
    | .error e, _ | .ok (), .error e => some e
    | .ok (), .ok _ => none

lemma fault?_eq_some_iff {leaf : Leaf} {e : LoweringError} :
    fault? E leaf = some e ↔ Fault E leaf e := by
  cases leaf with
  | closure =>
    constructor
    · rintro ⟨⟩
      exact .closure
    · rintro ⟨⟩
      rfl
  | condition c =>
    by_cases hcolumn : c.column ∈ E.columns
    · have hknown : checkColumn E c.column = .ok () := if_pos (List.contains_iff_mem.2 hcolumn)
      have hoperands : fault? E (.condition c) = some e ↔ boundValues c = .error e := by
        rw [fault?, hknown]
        cases boundValues c <;> simp
      rw [hoperands, boundValues_eq_error_iff]
      constructor
      · rintro (⟨hnull, rfl⟩ | ⟨hempty, rfl⟩ | ⟨hnull, rfl⟩)
        · exact .nullLiteral hcolumn hnull
        · exact .emptyList hcolumn hempty
        · exact .nullBound hcolumn hnull
      · rintro (_ | h | ⟨-, hnull⟩ | ⟨-, hempty⟩ | ⟨-, hnull⟩)
        · exact absurd hcolumn h
        · exact .inl ⟨hnull, rfl⟩
        · exact .inr (.inl ⟨hempty, rfl⟩)
        · exact .inr (.inr ⟨hnull, rfl⟩)
    · have hunknown : checkColumn E c.column = .error (.unknownColumn E.name c.column) :=
        if_neg (List.contains_iff_mem.not.2 hcolumn)
      have hfault : fault? E (.condition c) = some (.unknownColumn E.name c.column) := by
        rw [fault?, hunknown]
      rw [hfault, Option.some.injEq]
      constructor
      · rintro rfl
        exact .unknownColumn hcolumn
      · rintro (_ | _ | ⟨h, -⟩ | ⟨h, -⟩ | ⟨h, -⟩)
        · rfl
        all_goals exact absurd h hcolumn

/-- Fails with the fault if there is one. -/
def unlessFault {α : Type} (a : α) : Option LoweringError → Except LoweringError α
  | some e => .error e
  | none => .ok a

lemma unlessFault_eq_error_iff {α : Type} {a : α} {e? : Option LoweringError} {e : LoweringError} :
    unlessFault a e? = .error e ↔ e? = some e := by
  cases e? <;> simp [unlessFault]

lemma exists_unlessFault_eq_ok_iff {α : Type} {a : α} {e? : Option LoweringError} :
    (∃ b, unlessFault a e? = .ok b) ↔ e? = none := by
  cases e? <;> simp [unlessFault]

lemma map_unlessFault {α β : Type} (f : α → β) (a : α) (e? : Option LoweringError) :
    (unlessFault a e?).map f = unlessFault (f a) e? := by
  cases e? <;> rfl

lemma lowerCondition_eq (used : Nat) (c : ColumnCondition) :
    lowerCondition E used c = unlessFault
      (.compare c (parameterNames used c.test.operands.length), bind used c.test.operands)
      (fault? E (.condition c)) := by
  rw [lowerCondition, fault?]
  cases checkColumn E c.column with
  | error e => rfl
  | ok u =>
    cases hvalues : boundValues c with
    | error e => rfl
    | ok vs =>
      obtain rfl := boundValues_eq hvalues
      rw [← map_name_bind]
      rfl

mutual

/-- Lowering states the predicate, unless a leaf is at fault: then the first such leaf speaks. -/
theorem lower_eq_unlessFault (used : Nat) : ∀ p : Predicate ρ,
    lower E used p =
      unlessFault (p.stated used, bind used p.operands) (p.leaves.findSome? (fault? E))
  | .always | .never | .closure _ => rfl
  | .column c => by
    have hoperands : (Predicate.column c : Predicate ρ).operands = c.test.operands :=
      List.append_nil _
    rw [lower, lowerCondition_eq, hoperands, Predicate.leaves, Predicate.stated,
      List.findSome?_singleton]
  | .all ps | .any ps => by
    rw [lower, lowerList_eq_unlessFault used ps, map_unlessFault]
    rfl
  | .not p => by
    rw [lower, lower_eq_unlessFault used p, map_unlessFault]
    rfl

theorem lowerList_eq_unlessFault (used : Nat) : ∀ ps : List (Predicate ρ),
    lowerList E used ps =
      unlessFault (Predicate.statedEach used ps, bind used (Predicate.operandsOfEach ps))
        ((Predicate.leavesOfEach ps).findSome? (fault? E))
  | [] => rfl
  | p :: ps => by
    rw [lowerList, lower_eq_unlessFault used p, Predicate.leavesOfEach, List.findSome?_append]
    cases p.leaves.findSome? (fault? E) with
    | some e => rfl
    | none =>
      have hlater := lowerList_eq_unlessFault (used + (bind used p.operands).length) ps
      change (lowerList E (used + (bind used p.operands).length) ps >>= fun more =>
        .ok (p.stated used :: more.1, bind used p.operands ++ more.2)) = _
      rw [hlater, Option.none_or]
      cases (Predicate.leavesOfEach ps).findSome? (fault? E) with
      | some e => rfl
      | none =>
        rw [Predicate.operandsOfEach_cons, bind_append, Predicate.statedEach, length_bind]
        rfl

end

lemma fault?_eq_none_iff {leaf : Leaf} : fault? E leaf = none ↔ ∀ e, ¬ Fault E leaf e := by
  simp only [Option.eq_none_iff_forall_ne_some, ne_eq, fault?_eq_some_iff]

lemma lower_ok_iff {used : Nat} {p : Predicate ρ} :
    (∃ r, lower E used p = .ok r) ↔ ∀ leaf ∈ p.leaves, ∀ e, ¬ Fault E leaf e := by
  rw [lower_eq_unlessFault, exists_unlessFault_eq_ok_iff, List.findSome?_eq_none_iff]
  simp only [fault?_eq_none_iff]

lemma isStatable_of_lower {used : Nat} {p : Predicate ρ} {r : Restriction × List Binding}
    (h : lower E used p = .ok r) {c : ColumnCondition} (hc : c ∈ p.conditions) : c.IsStatable E :=
  ColumnCondition.isStatable_iff.2
    (lower_ok_iff.1 ⟨r, h⟩ _ ((Predicate.condition_mem_leaves p).2 hc))

lemma lowerList_ok_iff {used : Nat} {ps : List (Predicate ρ)} :
    (∃ r, lowerList E used ps = .ok r) ↔
      ∀ leaf ∈ Predicate.leavesOfEach ps, ∀ e, ¬ Fault E leaf e := by
  rw [lowerList_eq_unlessFault, exists_unlessFault_eq_ok_iff, List.findSome?_eq_none_iff]
  simp only [fault?_eq_none_iff]

lemma lower_eq_error_iff {used : Nat} {p : Predicate ρ} {e : LoweringError} :
    lower E used p = .error e ↔ ∃ before leaf after, p.leaves = before ++ leaf :: after ∧
      Fault E leaf e ∧ ∀ sound ∈ before, ∀ e', ¬ Fault E sound e' := by
  rw [lower_eq_unlessFault, unlessFault_eq_error_iff, List.findSome?_eq_some_iff]
  simp only [fault?_eq_some_iff, fault?_eq_none_iff]

/-- Lowering is exact. It succeeds if and only if the predicate holds no closure and a query can
state each of its conditions. Then the restriction holds of the rows that pass the predicate, and
each operand is bound to the next parameter. A failure is that of the first leaf at fault. -/
theorem lower_exact (E : Entity ρ) (used : Nat) (p : Predicate ρ) :
    ((∃ r, lower E used p = .ok r) ↔
        p.isPushable = true ∧ ∀ c ∈ p.conditions, c.IsStatable E) ∧
      (∀ r bindings, lower E used p = .ok (r, bindings) →
        (∀ row, r.holds E row = p.test E row) ∧
          bindings.map Binding.value = p.conditions.flatMap (fun c => c.test.operands) ∧
          bindings.map Binding.name =
            (List.range bindings.length).map fun i => ":p" ++ toString (used + i + 1)) ∧
      ∀ e, lower E used p = .error e ↔ ∃ before leaf after, p.leaves = before ++ leaf :: after ∧
        Fault E leaf e ∧ ∀ sound ∈ before, ∀ e', ¬ Fault E sound e' := by
  refine ⟨?_, fun r bindings h => ⟨(lower_ok used p h).holds_eq, ?_⟩, fun e => lower_eq_error_iff⟩
  · rw [← Predicate.closure_notMem_leaves]
    constructor
    · rintro ⟨r, h⟩
      have hsound := lower_ok_iff.1 ⟨r, h⟩
      exact ⟨fun hclosure => hsound _ hclosure _ .closure, fun c hc => isStatable_of_lower h hc⟩
    · rintro ⟨hclosure, hstatable⟩
      refine lower_ok_iff.2 fun leaf hleaf => ?_
      cases leaf with
      | closure => exact absurd hleaf hclosure
      | condition c =>
        have hc : c ∈ p.conditions := (Predicate.condition_mem_leaves p).1 hleaf
        exact ColumnCondition.isStatable_iff.1 (hstatable c hc)
  · obtain ⟨rfl, rfl⟩ := Prod.mk.inj (lower_eq used p h)
    rw [map_value_bind, map_name_bind, length_bind]
    exact ⟨rfl, rfl⟩

theorem lower_exact_records :
    let E := Entity.ofColumns "Person" "id" ["id", "age"]
    let young : ColumnCondition := ⟨"age", .between (.int 0) (.int 18) .standard⟩
    let listed : ColumnCondition := ⟨"id", .isIn [.int 3, .int 5]⟩
    let strange : ColumnCondition := ⟨"name", .eq .null⟩
    let stated : Predicate Record := .any [.column young, .not (.column listed)]
    let broken : Predicate Record := .all [.column young, .not (.column strange), .any []]
    (∃ r bindings, lower E 2 stated = .ok (r, bindings) ∧
        (∀ row, r.holds E row = stated.test E row) ∧
        bindings.map Binding.value = [.int 0, .int 18, .int 3, .int 5] ∧
        bindings.map Binding.name = [":p3", ":p4", ":p5", ":p6"]) ∧
      lower E 2 broken = .error (.unknownColumn "Person" "name") := by
  intro E young listed strange stated broken
  have hyoung : young.IsStatable E := ⟨by decide, by decide, by decide, by decide⟩
  have hlisted : listed.IsStatable E := ⟨by decide, by decide, by decide, by decide⟩
  obtain ⟨hok, hstates, -⟩ := lower_exact E 2 stated
  obtain ⟨-, -, herror⟩ := lower_exact E 2 broken
  constructor
  · have hconditions : ∀ c ∈ stated.conditions, c.IsStatable E :=
      List.forall_mem_cons.2 ⟨hyoung, List.forall_mem_singleton.2 hlisted⟩
    obtain ⟨⟨r, bindings⟩, hlower⟩ := hok.2 ⟨rfl, hconditions⟩
    obtain ⟨hholds, hvalues, hnames⟩ := hstates r bindings hlower
    have hlength : bindings.length = 4 := by rw [← List.length_map Binding.value, hvalues]; rfl
    refine ⟨r, bindings, hlower, hholds, hvalues, ?_⟩
    rw [hnames, hlength]
    decide
  · have hsound : ∀ sound ∈ [Leaf.condition young], ∀ e', ¬ Fault E sound e' :=
      List.forall_mem_singleton.2 (ColumnCondition.isStatable_iff.1 hyoung)
    exact (herror _).2 ⟨[.condition young], .condition strange, [], rfl,
      .unknownColumn (by decide), hsound⟩

end Lowering
end Pushdown
