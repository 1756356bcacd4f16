import Mathlib.Data.List.Nodup
import Pushdown.Proofs.Lowering
import Pushdown.Proofs.StandardPasses
import Std.Data.String.ToNat

/-!
# Bindings

Lowering gives every operand of a predicate a parameter, in the order of reading, and numbers the
parameters on from those in use. What fails or stays behind binds none. So the comparisons of a
restriction take up the parameters of their criteria one after the other, without a gap, however
many merges it took.
-/

namespace Pushdown

/-- The values that a query binds for a test: its operands in order, or the pattern for its text. -/
def ColumnTest.operands : ColumnTest → List Value
  | eq v | ne v | lt v | lte v | gt v | gte v => [v]
  | isIn vs | notIn vs => vs
  | isNull | isNotNull => []
  | startsWith s => [.text (Like.startingWith s)]
  | endsWith s => [.text (Like.endingWith s)]
  | contains s => [.text (Like.containing s)]
  | between start last _ | notBetween start last _ => [start, last]

namespace Lowering

/-- The names of `n` parameters behind the first `used` ones. -/
def parameterNames (used n : Nat) : List String :=
  (List.range n).map fun i => parameterName (used + i + 1)

@[simp] lemma length_parameterNames (used n : Nat) : (parameterNames used n).length = n := by
  simp [parameterNames]

lemma parameterNames_add (used m n : Nat) :
    parameterNames used (m + n) = parameterNames used m ++ parameterNames (used + m) n := by
  simp [parameterNames, List.range_add, Function.comp_def, Nat.add_assoc]

lemma parameterName_inj {m n : Nat} (h : parameterName m = parameterName n) : m = n := by
  have hdigits : toString m = toString n := (String.append_right_inj ":p").1 h
  exact Nat.repr_inj.1 hdigits

lemma nodup_parameterNames (used n : Nat) : (parameterNames used n).Nodup := by
  refine List.Nodup.map (fun i j h => ?_) List.nodup_range
  have hij := parameterName_inj h
  omega

@[simp] lemma length_bind (used : Nat) (vs : List Value) : (bind used vs).length = vs.length := by
  induction vs generalizing used with
  | nil => rfl
  | cons v vs ih => simp [bind, ih]

@[simp] lemma map_value_bind (used : Nat) (vs : List Value) :
    (bind used vs).map Binding.value = vs := by
  induction vs generalizing used with
  | nil => rfl
  | cons v vs ih => simp [bind, ih]

lemma bind_append (used : Nat) (vs ws : List Value) :
    bind used (vs ++ ws) = bind used vs ++ bind (used + vs.length) ws := by
  induction vs generalizing used with
  | nil => rfl
  | cons v vs ih => simp [bind, ih, Nat.add_assoc, Nat.add_comm 1]

@[simp] lemma map_name_bind (used : Nat) (vs : List Value) :
    (bind used vs).map Binding.name = parameterNames used vs.length := by
  induction vs generalizing used with
  | nil => rfl
  | cons v vs ih =>
    rw [List.length_cons, Nat.add_comm, parameterNames_add, bind, List.map_cons, ih]
    rfl

/-- No name occurs twice, so each is looked up at its own binding. -/
lemma find?_name {bs : List Binding} (hnodup : (bs.map Binding.name).Nodup) {b : Binding}
    (hb : b ∈ bs) : (bs.find? fun a => a.name == b.name) = some b := by
  induction bs with
  | nil => cases hb
  | cons a bs ih =>
    rw [List.map_cons, List.nodup_cons] at hnodup
    rcases List.mem_cons.1 hb with rfl | hb
    · exact List.find?_cons_of_pos (by simp)
    · have hne : a.name ≠ b.name := fun hab => hnodup.1 (hab ▸ List.mem_map_of_mem hb)
      rw [List.find?_cons_of_neg (by simpa using hne)]
      exact ih hnodup.2 hb

/-- Where each parameter is bound to its value, the parameters stand for the values. -/
lemma map_bound?_bind {bound? : String → Option Value} {used : Nat} {vs : List Value}
    (h : ∀ b ∈ bind used vs, bound? b.name = some b.value) :
    ((bind used vs).map Binding.name).map bound? = vs.map some := by
  have hvalues : (bind used vs).map (fun b => bound? b.name) =
      (bind used vs).map fun b => some b.value := List.map_inj_left.2 h
  rw [List.map_map]
  refine hvalues.trans ?_
  conv_rhs => rw [← map_value_bind used vs, List.map_map]
  rfl

/-- Conditions, each with the parameters for its operands, behind the first `used` ones. -/
def allot : Nat → List ColumnCondition → List (ColumnCondition × List String)
  | _, [] => []
  | used, c :: cs =>
    let n := c.test.operands.length
    (c, parameterNames used n) :: allot (used + n) cs

def operandsOfEach (cs : List ColumnCondition) : List Value := cs.flatMap fun c => c.test.operands

lemma operandsOfEach_append (cs ds : List ColumnCondition) :
    operandsOfEach (cs ++ ds) = operandsOfEach cs ++ operandsOfEach ds :=
  List.flatMap_append

lemma allot_append (used : Nat) (cs ds : List ColumnCondition) :
    allot used (cs ++ ds) = allot used cs ++ allot (used + (operandsOfEach cs).length) ds := by
  induction cs generalizing used with
  | nil => rfl
  | cons c cs ih => simp [allot, operandsOfEach, ih, Nat.add_assoc]

/-- Together, the conditions have the parameters in a row. -/
lemma names_allot (used : Nat) (cs : List ColumnCondition) :
    (allot used cs).flatMap Prod.snd = parameterNames used (operandsOfEach cs).length := by
  induction cs generalizing used with
  | nil => rfl
  | cons c cs ih =>
    have hlength : (operandsOfEach (c :: cs)).length =
        c.test.operands.length + (operandsOfEach cs).length := List.length_append
    rw [allot, List.flatMap_cons, ih, hlength, parameterNames_add]

lemma map_fst_allot (used : Nat) (cs : List ColumnCondition) :
    (allot used cs).map Prod.fst = cs := by
  induction cs generalizing used with
  | nil => rfl
  | cons c cs ih => rw [allot, List.map_cons, ih]

/-- A condition has the parameters to which its operands are bound. -/
lemma exists_bind_of_mem_allot {used : Nat} {cs : List ColumnCondition}
    {l : ColumnCondition × List String} (h : l ∈ allot used cs) :
    ∃ before, l.2 = (bind before l.1.test.operands).map Binding.name ∧
      bind before l.1.test.operands ⊆ bind used (operandsOfEach cs) := by
  induction cs generalizing used with
  | nil => cases h
  | cons c cs ih =>
    have hsplit : bind used (operandsOfEach (c :: cs)) = bind used c.test.operands ++
        bind (used + c.test.operands.length) (operandsOfEach cs) := bind_append _ _ _
    rw [hsplit]
    rcases List.mem_cons.1 h with rfl | h
    · exact ⟨used, (map_name_bind _ _).symm, List.subset_append_left _ _⟩
    · obtain ⟨before, hnames, hsubset⟩ := ih h
      exact ⟨before, hnames, List.subset_append_of_subset_right _ hsubset⟩

end Lowering

namespace Restriction

mutual

/-- The comparisons of a restriction from left to right, each with the names of its parameters. -/
def comparisons : Restriction → List (ColumnCondition × List String)
  | always | never => []
  | compare c names => [(c, names)]
  | all rs | any rs => comparisonsOfEach rs
  | not r => comparisons r

def comparisonsOfEach : List Restriction → List (ColumnCondition × List String)
  | [] => []
  | r :: rs => comparisons r ++ comparisonsOfEach rs

end

theorem comparisonsOfEach_eq (rs : List Restriction) :
    comparisonsOfEach rs = rs.flatMap comparisons := by
  induction rs with
  | nil => rfl
  | cons r rs ih => simp [comparisonsOfEach, ih]

lemma flatMap_comparisons_conjuncts (r : Restriction) :
    r.conjuncts.flatMap comparisons = r.comparisons := by
  cases r with
  | all rs => rw [conjuncts, comparisons, comparisonsOfEach_eq]
  | _ => simp [conjuncts]

lemma comparisons_and (r s : Restriction) :
    (r.and s).comparisons = r.comparisons ++ s.comparisons := by
  rw [and, comparisons, comparisonsOfEach_eq, List.flatMap_append, flatMap_comparisons_conjuncts,
    flatMap_comparisons_conjuncts]

lemma comparisons_ofConjuncts (rs : List Restriction) :
    (ofConjuncts rs).comparisons = comparisonsOfEach rs := by
  cases rs with
  | nil => rfl
  | cons r rs =>
    cases rs with
    | nil => simp [ofConjuncts, comparisonsOfEach]
    | cons s rs => rfl

end Restriction

namespace Predicate

variable {ρ : Type}

mutual

/-- The column conditions of a predicate, from left to right. -/
def conditions : Predicate ρ → List ColumnCondition
  | always | never | closure _ => []
  | column c => [c]
  | all ps | any ps => conditionsOfEach ps
  | not p => conditions p

def conditionsOfEach : List (Predicate ρ) → List ColumnCondition
  | [] => []
  | p :: ps => conditions p ++ conditionsOfEach ps

end

def operands (p : Predicate ρ) : List Value := Lowering.operandsOfEach p.conditions

def operandsOfEach (ps : List (Predicate ρ)) : List Value :=
  Lowering.operandsOfEach (conditionsOfEach ps)

lemma operandsOfEach_cons (p : Predicate ρ) (ps : List (Predicate ρ)) :
    operandsOfEach (p :: ps) = p.operands ++ operandsOfEach ps :=
  Lowering.operandsOfEach_append _ _

mutual

/-- The restriction that states a predicate, with its parameters behind the first `used` ones. A
closure cannot be stated. -/
def stated (used : Nat) : Predicate ρ → Restriction
  | always => .always
  | never | closure _ => .never
  | column c => .compare c (Lowering.parameterNames used c.test.operands.length)
  | all ps => .all (statedEach used ps)
  | any ps => .any (statedEach used ps)
  | not p => .not (stated used p)

def statedEach (used : Nat) : List (Predicate ρ) → List Restriction
  | [] => []
  | p :: ps => stated used p :: statedEach (used + p.operands.length) ps

end

mutual

/-- A stated predicate compares by its conditions, with their parameters in a row. -/
theorem comparisons_stated (used : Nat) :
    ∀ p : Predicate ρ, (p.stated used).comparisons = Lowering.allot used p.conditions
  | always | never | closure _ | column _ => rfl
  | all ps | any ps => comparisons_statedEach used ps
  | not p => comparisons_stated used p

theorem comparisons_statedEach (used : Nat) :
    ∀ ps : List (Predicate ρ), Restriction.comparisonsOfEach (statedEach used ps) =
      Lowering.allot used (conditionsOfEach ps)
  | [] => rfl
  | p :: ps => by
    rw [statedEach, Restriction.comparisonsOfEach, comparisons_stated used p,
      comparisons_statedEach _ ps, conditionsOfEach, Lowering.allot_append]
    rfl

end

end Predicate

namespace Lowering

variable {ρ : Type} {E : Entity ρ}

lemma boundValues_eq {c : ColumnCondition} {vs : List Value} (h : boundValues c = .ok vs) :
    vs = c.test.operands := by
  obtain ⟨column, test⟩ := c
  unfold boundValues at h
  cases test with
  | isNull | isNotNull | startsWith | endsWith | contains =>
    cases h
    rfl
  | isIn ws | notIn ws =>
    simp only at h
    split at h
    · cases h
    · split at h
      · cases h
      · cases h
        rfl
  | _ =>
    simp only at h
    split at h
    · cases h
    · cases h
      rfl

mutual

/-- Lowering fails, or it states the predicate and binds its operands. -/
theorem lower_eq (used : Nat) :
    ∀ (p : Predicate ρ) {r}, lower E used p = .ok r → r = (p.stated used, bind used p.operands)
  | .always, r, h | .never, r, h => by
    cases h
    rfl
  | .column c, r, h => by
    rw [lower, lowerCondition] at h
    obtain ⟨u, -, h⟩ := bind_eq_ok h
    obtain ⟨vs, hvs, h⟩ := bind_eq_ok h
    cases h
    obtain rfl := boundValues_eq hvs
    have hoperands : (Predicate.column c : Predicate ρ).operands = c.test.operands :=
      List.append_nil _
    rw [hoperands, Predicate.stated, map_name_bind]
  | .all ps, r, h => by
    rw [lower] at h
    obtain ⟨rs, hrs, rfl⟩ := map_eq_ok h
    obtain rfl := lowerList_eq used ps hrs
    rfl
  | .any ps, r, h => by
    rw [lower] at h
    obtain ⟨rs, hrs, rfl⟩ := map_eq_ok h
    obtain rfl := lowerList_eq used ps hrs
    rfl
  | .not p, r, h => by
    rw [lower] at h
    obtain ⟨s, hs, rfl⟩ := map_eq_ok h
    obtain rfl := lower_eq used p hs
    rfl
  | .closure _, r, h => nomatch h

theorem lowerList_eq (used : Nat) :
    ∀ (ps : List (Predicate ρ)) {rs}, lowerList E used ps = .ok rs →
      rs = (Predicate.statedEach used ps, bind used (Predicate.operandsOfEach ps))
  | [], rs, h => by
    cases h
    rfl
  | p :: ps, rs, h => by
    rw [lowerList] at h
    obtain ⟨r, hr, h⟩ := bind_eq_ok h
    obtain ⟨more, hmore, h⟩ := bind_eq_ok h
    obtain rfl := lower_eq used p hr
    obtain rfl := lowerList_eq _ ps hmore
    cases h
    rw [Predicate.operandsOfEach_cons, bind_append, Predicate.statedEach, length_bind]

end

end Lowering

namespace Criteria

/-- The comparisons of the restriction, if there is one. -/
def comparisons (c : Criteria) : List (ColumnCondition × List String) :=
  match c.restriction? with
  | some r => r.comparisons
  | none => []

/-- The value to which a parameter is bound. -/
def bound? (c : Criteria) (name : String) : Option Value :=
  (c.parameters.find? fun b => b.name == name).map Binding.value

lemma comparisons_restrict (c : Criteria) (r : Restriction) (bindings : List Binding) :
    (c.restrict r bindings).comparisons = c.comparisons ++ r.comparisons := by
  unfold comparisons restrict
  cases c.restriction? with
  | none => rfl
  | some old => exact Restriction.comparisons_and old r

/-- The comparisons take up the parameters one after the other, and these are bound to their
operands. -/
def BindsInOrder (c : Criteria) : Prop :=
  ∃ conditions, c.comparisons = Lowering.allot 0 conditions ∧
    c.parameters = Lowering.bind 0 (Lowering.operandsOfEach conditions)

namespace BindsInOrder

variable {c c' : Criteria}

/-- A filter that goes in numbers its parameters on. -/
lemma takes (h : c.BindsInOrder) {ρ : Type} {E : Entity ρ} {op : Operation ρ}
    (htakes : c.Takes E op c') : c'.BindsInOrder := by
  cases htakes with
  | @restrict p restrictions bindings hkind hp hpushable hlower =>
    obtain ⟨conditions, hcomparisons, hparameters⟩ := h
    have hused : c.parameters.length = 0 + (Lowering.operandsOfEach conditions).length := by
      rw [hparameters, Lowering.length_bind, Nat.zero_add]
    have hlowered := Lowering.lowerList_eq _ _ hlower
    rw [hused, Prod.mk.injEq] at hlowered
    obtain ⟨rfl, rfl⟩ := hlowered
    let pushed := p.conjuncts.filter Predicate.isPushable
    refine ⟨conditions ++ Predicate.conditionsOfEach pushed, ?_, ?_⟩
    · rw [comparisons_restrict, hcomparisons, Restriction.comparisons_ofConjuncts,
        Predicate.comparisons_statedEach, Lowering.allot_append]
    · rw [Lowering.operandsOfEach_append, Lowering.bind_append, ← hparameters]
      rfl
  | prependOrder => exact h
  | setDistinct => exact h

lemma nodup_names (h : c.BindsInOrder) : (c.parameters.map Binding.name).Nodup := by
  obtain ⟨conditions, -, hparameters⟩ := h
  rw [hparameters, Lowering.map_name_bind]
  exact Lowering.nodup_parameterNames _ _

lemma bound?_of_mem (h : c.BindsInOrder) {b : Binding} (hb : b ∈ c.parameters) :
    c.bound? b.name = some b.value := by
  rw [bound?, Lowering.find?_name h.nodup_names hb]
  rfl

end BindsInOrder
end Criteria

/-- What comes of `q` by merges with the standard registry, of any pipelines over any entities. -/
inductive Query.MergedFrom (q : Query) : Query → Prop
  | refl : MergedFrom q q
  | merge {ρ : Type} (E : Entity ρ) (ops : List (Operation ρ)) {q' : Query}
      (h : MergedFrom q q') : MergedFrom q ((Registry.standard E).merge ops q').target

namespace Query.MergedFrom

open Operation

/-- Merges go on binding in order, also those that fail or leave residuals. -/
lemma bindsInOrder {q q' : Query} (h : q.MergedFrom q') (hq : q.criteria.BindsInOrder) :
    q'.criteria.BindsInOrder := by
  induction h with
  | refl => exact hq
  | merge E ops h ih =>
    refine Registry.merge_induction E (Q := fun _ q => q.criteria.BindsInOrder)
      (fun _ _ _ _ h hgoes => h.takes (Verdict.takes_of_onCriteria hgoes).2) ?_ ops ih
    intro _ _ _ _ h hgoes
    rw [(Verdict.criteria_of_onQuery hgoes).2]
    exact h

/-- After any merges into a fresh query, the parameters are numbered from 1 on. The names in the
restriction, read from left to right, are these, each once, and the names of a comparison are bound
to its operands. -/
theorem parameters_bound {q q' : Query} (h : q.MergedFrom q')
    (hrestriction : q.criteria.restriction? = none) (hparameters : q.criteria.parameters = []) :
    let c := q'.criteria
    let names := c.parameters.map Binding.name
    names = (List.range c.parameters.length).map (fun i => ":p" ++ toString (i + 1)) ∧
      c.comparisons.flatMap Prod.snd = names ∧ names.Nodup ∧
      ∀ l ∈ c.comparisons, l.2.map c.bound? = l.1.test.operands.map some := by
  intro c names
  have hfresh : q.criteria.BindsInOrder :=
    ⟨[], by rw [Criteria.comparisons, hrestriction]; rfl, hparameters⟩
  have hbinds : c.BindsInOrder := h.bindsInOrder hfresh
  obtain ⟨conditions, hcomparisons, hbound⟩ := id hbinds
  have hnames : names = Lowering.parameterNames 0 (Lowering.operandsOfEach conditions).length := by
    rw [← Lowering.map_name_bind, ← hbound]
  refine ⟨?_, ?_, hbinds.nodup_names, fun l hl => ?_⟩
  · rw [hnames, hbound, Lowering.length_bind]
    simp [Lowering.parameterNames, Lowering.parameterName]
  · rw [hcomparisons, hnames, Lowering.names_allot]
  · rw [hcomparisons] at hl
    obtain ⟨before, hl, hsubset⟩ := Lowering.exists_bind_of_mem_allot hl
    rw [← hbound] at hsubset
    have hvalues : (Lowering.bind before l.1.test.operands).map (fun b => c.bound? b.name) =
        (Lowering.bind before l.1.test.operands).map fun b => some b.value :=
      List.map_inj_left.2 fun b hb => hbinds.bound?_of_mem (hsubset hb)
    calc l.2.map c.bound?
        = (Lowering.bind before l.1.test.operands).map (fun b => c.bound? b.name) := by
          rw [hl, List.map_map]
          rfl
      _ = ((Lowering.bind before l.1.test.operands).map Binding.value).map some := by
          rw [hvalues, List.map_map]
          rfl
      _ = l.1.test.operands.map some := by rw [Lowering.map_value_bind]

theorem parameters_bound_records :
    let E := Entity.ofColumns "User" "id" ["id", "name"]
    let even : Predicate Record := .closure ⟨0, fun r => r.cells.length % 2 == 0⟩
    let between : Predicate Record := .column ⟨"id", .between (.int 1) (.int 9) .standard⟩
    let named : Predicate Record := .column ⟨"name", .startsWith "a%"⟩
    let other : Predicate Record := .not (.column ⟨"id", .isIn [.int 3, .int 5]⟩)
    let broken : Predicate Record := .all [named, .column ⟨"id", .eq .null⟩]
    let first := [filter E (between.and even), filter E named]
    let second := [filter E (named.or other), filter E broken]
    let q := Query.ofCriteria (.new "User")
    let merged (ops : List (Operation Record)) (q : Query) := (Registry.standard E).merge ops q
    let q' := (merged second (merged first q).target).target
    q.MergedFrom q' ∧ q.criteria.restriction? = none ∧ q.criteria.parameters = [] ∧
      q'.criteria.parameters.map Binding.name = [":p1", ":p2", ":p3", ":p4", ":p5"] ∧
      ∀ l ∈ q'.criteria.comparisons, l.2.map q'.criteria.bound? = l.1.test.operands.map some := by
  intro E even between named other broken first second q merged q'
  have h : q.MergedFrom q' := .merge E second (.merge E first .refl)
  obtain ⟨hnames, -, -, hvalues⟩ := parameters_bound h rfl rfl
  have hcount : q'.criteria.parameters.length = 5 := by decide
  refine ⟨h, rfl, rfl, ?_, hvalues⟩
  rw [hnames, hcount]
  decide

end Query.MergedFrom
end Pushdown
