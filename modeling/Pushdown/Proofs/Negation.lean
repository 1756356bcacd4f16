import Pushdown.Proofs.PrintedComparisons

/-!
# Negation

A predicate and its negation never both hold. They are complements but for one case: a column
condition is negated by the complement of its test, and a cell that does not compare with the
operands fails both tests. Where the cell compares with all of them, one of the two tests holds.
-/

namespace Pushdown

lemma Value.isNull_of_strictCompare? {v w : Value} (h : (v.strictCompare? w).isSome = true) :
    v.isNull = false ∧ w.isNull = false := by
  cases v with
  | null => cases h
  | _ => cases w with
    | null => cases h
    | _ => exact ⟨rfl, rfl⟩

namespace Inclusion

variable {v start last : Value}

lemma not_inRange_and_notInRange (i : Inclusion) (v start last : Value) :
    ¬(i.inRange v start last = true ∧ i.notInRange v start last = true) := by
  rintro ⟨hin, hout⟩
  unfold inRange at hin
  unfold notInRange at hout
  cases hv : v.isNull with
  | true => simp [hv] at hin
  | false =>
    cases hstart : start.isNull with
    | true => simp [hv, hstart] at hout
    | false =>
      cases hlast : last.isNull with
      | true => simp [hv, hlast] at hout
      | false =>
        simp only [hv, hstart, hlast] at hin hout
        cases hlower : i.startAccepts? v start with
        | none => simp [hlower] at hin
        | some lower => cases hupper : i.endAccepts? v last <;> simp_all

/-- A cell that compares with both bounds is in the range or out of it, in whichever order the
bounds are given. -/
lemma notInRange_of_compares (i : Inclusion) (hstart : (v.strictCompare? start).isSome = true)
    (hlast : (v.strictCompare? last).isSome = true) :
    i.notInRange v start last = !i.inRange v start last := by
  obtain ⟨hv, hstartNull⟩ := Value.isNull_of_strictCompare? hstart
  obtain ⟨-, hlastNull⟩ := Value.isNull_of_strictCompare? hlast
  obtain ⟨o, ho⟩ := Option.isSome_iff_exists.1 hstart
  obtain ⟨o', ho'⟩ := Option.isSome_iff_exists.1 hlast
  simp [notInRange, inRange, hv, hstartNull, hlastNull, startAccepts?_eq, endAccepts?_eq, ho, ho']

end Inclusion

namespace ColumnTest

variable {test complement : ColumnTest} {v : Value}

/-- A value that compares with another one differs from it just if it does not equal it. -/
lemma differs_eq {o : Option Ordering} (h : o.isSome = true) :
    (o == some .lt || o == some .gt) = !(o == some .eq) := by
  obtain ⟨o, rfl⟩ := Option.isSome_iff_exists.1 h
  cases o <;> rfl

lemma holds_notIn_of_compares {vs : List Value} (hv : v.isNull = false)
    (h : ∀ w ∈ vs, (v.strictCompare? w).isSome = true) :
    (notIn vs).holds v = !(isIn vs).holds v := by
  simp only [holds, hv, Bool.not_false, Bool.true_and]
  induction vs with
  | nil => rfl
  | cons w vs ih =>
    obtain ⟨hw, hvs⟩ := List.forall_mem_cons.1 h
    rw [List.all_cons, List.any_cons, ih hvs, differs_eq hw, Bool.not_or]

/-- Taking the complement keeps the operands, and taking it twice gives the test back. -/
lemma complement?_complement (h : test.complement? = some complement) :
    complement.complement? = some test ∧ complement.operands = test.operands := by
  cases test <;> cases h <;> exact ⟨rfl, rfl⟩

/-- On a cell that compares with all operands, exactly one of a test and its complement holds. -/
lemma holds_complement (h : test.complement? = some complement) (hv : v.isNull = false)
    (hcompares : ∀ w ∈ test.operands, (v.strictCompare? w).isSome = true) :
    complement.holds v = !test.holds v := by
  cases test with
  | isNull =>
    cases h
    rfl
  | isNotNull =>
    cases h
    exact (Bool.not_not _).symm
  | isIn vs =>
    cases h
    exact holds_notIn_of_compares hv hcompares
  | notIn vs =>
    cases h
    have hvs : ∀ w ∈ vs, (v.strictCompare? w).isSome = true := hcompares
    rw [holds_notIn_of_compares hv hvs, Bool.not_not]
  | between start last i =>
    cases h
    exact i.notInRange_of_compares (hcompares start (by simp [operands]))
      (hcompares last (by simp [operands]))
  | notBetween start last i =>
    cases h
    rw [holds, holds, i.notInRange_of_compares (hcompares start (by simp [operands]))
      (hcompares last (by simp [operands])), Bool.not_not]
  | startsWith _ => cases h
  | endsWith _ => cases h
  | contains _ => cases h
  | _ w =>
    cases h
    obtain ⟨o, ho⟩ := Option.isSome_iff_exists.1 (hcompares w (by simp [operands]))
    simp only [holds, ho]
    cases o <;> rfl

lemma not_isIn_and_notIn (vs : List Value) (v : Value) :
    ¬((isIn vs).holds v = true ∧ (notIn vs).holds v = true) := by
  rintro ⟨hin, hout⟩
  simp only [holds, List.any_eq_true, Bool.and_eq_true, List.all_eq_true] at hin hout
  obtain ⟨w, hw, heq⟩ := hin
  have hdiffers := hout.2 w hw
  rw [eq_of_beq heq] at hdiffers
  cases hdiffers

/-- A test and its complement never both hold, whatever the cell and the operands are. -/
lemma not_holds_and_complement (h : test.complement? = some complement) (v : Value) :
    ¬(test.holds v = true ∧ complement.holds v = true) := by
  cases test with
  | isNull =>
    cases h
    simp [holds]
  | isNotNull =>
    cases h
    simp [holds]
  | isIn vs =>
    cases h
    exact not_isIn_and_notIn vs v
  | notIn vs =>
    cases h
    exact fun hboth => not_isIn_and_notIn vs v hboth.symm
  | between start last i =>
    cases h
    exact i.not_inRange_and_notInRange v start last
  | notBetween start last i =>
    cases h
    exact fun hboth => i.not_inRange_and_notInRange v start last hboth.symm
  | startsWith _ => cases h
  | endsWith _ => cases h
  | contains _ => cases h
  | _ w =>
    cases h
    simp only [holds]
    cases v.strictCompare? w with
    | none => simp
    | some o => cases o <;> simp

end ColumnTest

namespace Predicate

variable {ρ : Type} (E : Entity ρ)

/-- Unless it takes the complement of a test, a negation turns the answer round. -/
lemma test_negate {p : Predicate ρ} (h : ∀ c, p = column c → c.test.complement? = none)
    (row : ρ) : p.negate.test E row = !p.test E row := by
  cases p with
  | column c =>
    rw [negate, h c rfl]
    rfl
  | not p => exact (Bool.not_not _).symm
  | _ => rfl

/-- The negation of a column condition with a complement is the condition with that complement. -/
lemma negate_column {c : ColumnCondition} {complement : ColumnTest}
    (h : c.test.complement? = some complement) :
    (column c : Predicate ρ).negate = column ⟨c.column, complement⟩ := by
  rw [negate, h]

lemma not_test_and_negate (p : Predicate ρ) (row : ρ) :
    ¬(p.test E row = true ∧ p.negate.test E row = true) := by
  by_cases h : ∀ c, p = column c → c.test.complement? = none
  · rw [test_negate E h]
    simp
  · obtain ⟨c, hc⟩ := not_forall.1 h
    obtain ⟨rfl, hsome⟩ := Classical.not_imp.1 hc
    obtain ⟨complement, hcomplement⟩ := Option.ne_none_iff_exists'.1 hsome
    rw [negate_column hcomplement]
    exact ColumnTest.not_holds_and_complement hcomplement (E.read row c.column)

/-- A predicate and its negation never both hold. They are complements unless the predicate is a
column condition whose test has a complement. Such tests are complements on a cell that is not null
and compares with all operands, the tests for null are on any cell, and the complement of a
complement is the test itself. -/
theorem negate_excludes :
    (∀ (p : Predicate ρ) (row : ρ), ¬(p.test E row = true ∧ p.negate.test E row = true)) ∧
    (∀ (p : Predicate ρ) (row : ρ),
      (¬∃ c complement, p = column c ∧ c.test.complement? = some complement) →
        p.negate.test E row = !p.test E row) ∧
    (∀ (test complement : ColumnTest) (v : Value), test.complement? = some complement →
      v ≠ .null → (∀ w ∈ test.operands, (v.strictCompare? w).isSome = true) →
        complement.holds v = !test.holds v) ∧
    (∀ v : Value, ColumnTest.isNotNull.holds v = !ColumnTest.isNull.holds v) ∧
    ∀ test complement : ColumnTest, test.complement? = some complement →
      complement.complement? = some test ∧ complement.operands = test.operands := by
  refine ⟨not_test_and_negate E, fun p row h => ?_, fun test complement v h hv hcompares => ?_,
    fun v => rfl, fun test complement h => ColumnTest.complement?_complement h⟩
  · refine test_negate E (fun c hc => ?_) row
    exact Option.eq_none_iff_forall_ne_some.2 fun complement hcomplement =>
      h ⟨c, complement, hc, hcomplement⟩
  · have hnull : v.isNull = false := by
      cases v with
      | null => exact absurd rfl hv
      | _ => rfl
    exact ColumnTest.holds_complement h hnull hcompares

/-- The bounds stand in reverse order, so every cell that compares with them is out of range. A cell
without a value is neither in the range nor out of it. -/
theorem negate_excludes_records :
    let E := Entity.ofColumns "User" "id" ["id", "age"]
    let range := ColumnTest.between (.int 9) (.int 1) .startExclusiveEndInclusive
    let outside := ColumnTest.notBetween (.int 9) (.int 1) .startExclusiveEndInclusive
    let p : Predicate Record := .column ⟨"age", outside⟩
    ¬(p.test E ⟨[("id", .int 1)]⟩ = true ∧ p.negate.test E ⟨[("id", .int 1)]⟩ = true) ∧
      range.complement? = some outside ∧ Value.int 5 ≠ .null ∧
      (∀ w ∈ range.operands, ((Value.int 5).strictCompare? w).isSome = true) ∧
      outside.holds (.int 5) = !range.holds (.int 5) ∧ outside.complement? = some range := by
  intro E range outside p
  obtain ⟨hexcludes, -, hcomplement, -, htwice⟩ := negate_excludes E
  have hcompares : ∀ w ∈ range.operands, ((Value.int 5).strictCompare? w).isSome = true := by
    decide
  exact ⟨hexcludes p _, rfl, nofun, hcompares, hcomplement range outside _ rfl nofun hcompares,
    (htwice range outside rfl).1⟩

end Predicate
end Pushdown
