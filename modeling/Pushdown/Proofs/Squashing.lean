import Pushdown.Pipeline.Optimization
import Pushdown.Proofs.Conjunctions
import Pushdown.Proofs.Replay

/-!
# Squashing

Squashing rewrites two neighbours of one kind into one operation, or drops an operation that does
nothing. An interpretation that obeys these rules, as flows and lists do, makes the same of the
operations before and after.
-/

namespace Pushdown

namespace Count

lemma zero_add (n : UInt64) : add 0 n = n := by
  apply UInt64.toNat_inj.1
  have hn : n.toNat < UInt64.size := n.toNat_lt
  rw [toNat_add, UInt64.toNat_zero]
  omega

lemma add_zero (n : UInt64) : add n 0 = n := by
  apply UInt64.toNat_inj.1
  have hn : n.toNat < UInt64.size := n.toNat_lt
  rw [toNat_add, UInt64.toNat_zero]
  omega

lemma eq_zero_of_add_eq_zero {m n : UInt64} (h : add m n = 0) : m = 0 := by
  apply UInt64.toNat_inj.1
  have hsum := toNat_add m n
  have hpos : 1 < UInt64.size := by decide
  rw [h, UInt64.toNat_zero] at hsum
  rw [UInt64.toNat_zero]
  omega

lemma toNat_le_greatest (n : UInt64) : n.toNat ≤ greatest.toNat :=
  Nat.le_of_lt_succ n.toNat_lt

lemma min_greatest (n : UInt64) : min n greatest = n := by
  apply UInt64.toNat_inj.1
  rw [toNat_min, Nat.min_eq_left (toNat_le_greatest n)]

lemma greatest_min (n : UInt64) : min greatest n = n := by
  apply UInt64.toNat_inj.1
  rw [toNat_min, Nat.min_eq_right (toNat_le_greatest n)]

end Count

namespace Operation

variable {ρ : Type} {E : Entity ρ}

/-- The rules of squashing: operations side by side, and what may stand for them. -/
inductive FusesInto (E : Entity ρ) : List (Operation ρ) → List (Operation ρ) → Prop
  | filters {p q r : Predicate ρ} (h : ∀ row, r.test E row = (p.test E row && q.test E row)) :
      FusesInto E [filter E p, filter E q] [filter E r]
  | sorts {c d : Comparator ρ} (hc : c.IsOrder) (hd : d.IsOrder) :
      FusesInto E [sortedBy E c, sortedBy E d] [sortedBy E (d.andThen c)]
  | distincts : FusesInto E [distinct E, distinct E] [distinct E]
  | skips (m n : UInt64) : FusesInto E [skip m, skip n] [skip (Count.add m n)]
  | limits (m n : UInt64) : FusesInto E [limit m, limit n] [limit (Count.min m n)]
  | noSkip : FusesInto E [skip 0] []
  | noLimit : FusesInto E [limit Count.greatest] []

lemma FusesInto.selects {front front' : List (Operation ρ)} (h : FusesInto E front front') :
    ∀ op ∈ front ++ front', op.Selects E := by
  have pair : ∀ {a b c : Operation ρ}, a.Selects E → b.Selects E → c.Selects E →
      ∀ op ∈ [a, b] ++ [c], op.Selects E := by
    intro a b c ha hb hc op hop
    simp only [List.cons_append, List.nil_append, List.mem_cons, List.not_mem_nil, or_false] at hop
    rcases hop with rfl | rfl | rfl <;> assumption
  cases h with
  | filters h => exact pair (.filter _) (.filter _) (.filter _)
  | sorts hc hd => exact pair (.sortedBy hc) (.sortedBy hd) (.sortedBy (hd.andThen hc))
  | distincts => exact pair .distinct .distinct .distinct
  | skips m n => exact pair (.skip m) (.skip n) (.skip _)
  | limits m n => exact pair (.limit m) (.limit n) (.limit _)
  | noSkip => exact List.forall_mem_singleton.2 (.skip 0)
  | noLimit => exact List.forall_mem_singleton.2 (.limit _)

/-- `ops'` comes out of `ops` by the rules of squashing. -/
inductive Rewrites (E : Entity ρ) : List (Operation ρ) → List (Operation ρ) → Prop
  | refl (ops : List (Operation ρ)) : Rewrites E ops ops
  | front {front front' : List (Operation ρ)} (h : FusesInto E front front')
      (rest : List (Operation ρ)) : Rewrites E (front ++ rest) (front' ++ rest)
  | cons (op : Operation ρ) {ops ops' : List (Operation ρ)} (h : Rewrites E ops ops') :
      Rewrites E (op :: ops) (op :: ops')
  | trans {a b c : List (Operation ρ)} (hab : Rewrites E a b) (hbc : Rewrites E b c) :
      Rewrites E a c

/-- What squashing writes are operations that pick or arrange rows. -/
lemma Rewrites.mem {ops ops' : List (Operation ρ)} (h : Rewrites E ops ops') :
    ∀ op ∈ ops', op ∈ ops ∨ op.Selects E := by
  induction h with
  | refl ops => exact fun op hop => Or.inl hop
  | front h rest =>
    intro op hop
    rcases List.mem_append.1 hop with hop | hop
    · exact Or.inr (h.selects op (List.mem_append_right _ hop))
    · exact Or.inl (List.mem_append_right _ hop)
  | cons op' h ih =>
    intro op hop
    rcases List.mem_cons.1 hop with rfl | hop
    · exact Or.inl List.mem_cons_self
    · exact (ih op hop).imp_left (List.mem_cons_of_mem _)
  | trans hab hbc ihab ihbc =>
    intro op hop
    rcases ihbc op hop with hop | hsel
    · exact ihab op hop
    · exact Or.inr hsel

lemma Rewrites.regular {ops ops' : List (Operation ρ)} (h : Rewrites E ops ops')
    (hops : ∀ op ∈ ops, op.Regular E) : ∀ op ∈ ops', op.Regular E :=
  regular_of_mem hops h.mem

end Operation

namespace Fusion

open Operation

variable {ρ ν : Type}

/-- What runs of operations fuse into comes out of them by the rules of squashing. The values that
come up on the way are `valid`. -/
structure Sound (f : Fusion ρ ν) (E : Entity ρ) (valid : ν → Prop) : Prop where
  isNeutral_neutral : f.isNeutral f.neutral = true
  valid_neutral : valid f.neutral
  part : ∀ {op v}, op.Regular E → f.part? op = some v →
    valid v ∧ f.build v = op ∧ (f.isNeutral v = true → FusesInto E [op] [])
  left : ∀ {v} w, f.isNeutral v = true → f.combine v w = w
  right : ∀ v {w}, f.isNeutral w = true → f.combine v w = v
  fuses : ∀ {v w}, valid v → valid w → f.isNeutral v = false → f.isNeutral w = false →
    valid (f.combine v w) ∧ f.isNeutral (f.combine v w) = false ∧
      FusesInto E [f.build v, f.build w] [f.build (f.combine v w)]

lemma flush_of_neutral {f : Fusion ρ ν} {v : ν} (h : f.isNeutral v = true)
    (ops : List (Operation ρ)) : f.flush v ops = ops := if_pos h

lemma flush_of_not_neutral {f : Fusion ρ ν} {v : ν} (h : f.isNeutral v = false)
    (ops : List (Operation ρ)) : f.flush v ops = f.build v :: ops := by
  simp [flush, h]

namespace Sound

variable {f : Fusion ρ ν} {E : Entity ρ} {valid : ν → Prop}

lemma valid_combine (hf : f.Sound E valid) {v w : ν} (hv : valid v) (hw : valid w) :
    valid (f.combine v w) := by
  cases hnv : f.isNeutral v with
  | true => rwa [hf.left w hnv]
  | false =>
    cases hnw : f.isNeutral w with
    | true => rwa [hf.right v hnw]
    | false => exact (hf.fuses hv hw hnv hnw).1

lemma rewrites_part (hf : f.Sound E valid) {op : Operation ρ} {v : ν} (hop : op.Regular E)
    (hv : f.part? op = some v) (rest : List (Operation ρ)) :
    Rewrites E (op :: rest) (f.flush v rest) := by
  obtain ⟨-, hbuild, hdrop⟩ := hf.part hop hv
  cases hn : f.isNeutral v with
  | true =>
    rw [flush_of_neutral hn]
    exact .front (hdrop hn) rest
  | false =>
    rw [flush_of_not_neutral hn, hbuild]
    exact .refl _

lemma rewrites_combine (hf : f.Sound E valid) {v w : ν} (hv : valid v) (hw : valid w)
    (rest : List (Operation ρ)) :
    Rewrites E (f.flush v (f.flush w rest)) (f.flush (f.combine v w) rest) := by
  cases hnv : f.isNeutral v with
  | true =>
    rw [hf.left w hnv, flush_of_neutral hnv]
    exact .refl _
  | false =>
    cases hnw : f.isNeutral w with
    | true =>
      rw [hf.right v hnw, flush_of_neutral hnw]
      exact .refl _
    | false =>
      obtain ⟨-, hn, hfuses⟩ := hf.fuses hv hw hnv hnw
      rw [flush_of_not_neutral hnv, flush_of_not_neutral hnw, flush_of_not_neutral hn]
      exact .front hfuses rest

/-- What the scan has pending, written in front of what it has done, comes out of the operations
that it has passed. -/
lemma rewrites_scan (hf : f.Sound E valid) {ops : List (Operation ρ)}
    (hops : ∀ op ∈ ops, op.Regular E) :
    valid (f.scan ops).1 ∧ Rewrites E ops (f.flush (f.scan ops).1 (f.scan ops).2) := by
  induction ops with
  | nil =>
    refine ⟨hf.valid_neutral, ?_⟩
    rw [scan, flush_of_neutral hf.isNeutral_neutral]
    exact .refl []
  | cons op ops ih =>
    obtain ⟨hop, hops⟩ := List.forall_mem_cons.1 hops
    obtain ⟨hvalid, hrest⟩ := ih hops
    have hcons := Rewrites.cons op hrest
    rw [scan]
    cases hv : f.part? op with
    | some v =>
      have hpart := (hf.part hop hv).1
      refine ⟨hf.valid_combine hpart hvalid, ?_⟩
      exact (hcons.trans (hf.rewrites_part hop hv _)).trans (hf.rewrites_combine hpart hvalid _)
    | none =>
      refine ⟨hf.valid_neutral, ?_⟩
      rw [flush_of_neutral hf.isNeutral_neutral]
      exact hcons

theorem rewrites_squash (hf : f.Sound E valid) {ops : List (Operation ρ)}
    (hops : ∀ op ∈ ops, op.Regular E) : Rewrites E ops (f.squash ops) :=
  (hf.rewrites_scan hops).2

end Sound

/-- What holds of the operations, and of all that may be built from their values, holds of the fused
operations. -/
lemma forall_mem_squash {f : Fusion ρ ν} {P : Operation ρ → Prop} {V : ν → Prop}
    (hneutral : V f.neutral) (hpart : ∀ {op v}, P op → f.part? op = some v → V v)
    (hcombine : ∀ {v w}, V v → V w → V (f.combine v w))
    (hbuild : ∀ {v}, V v → f.isNeutral v = false → P (f.build v))
    {ops : List (Operation ρ)} (hops : ∀ op ∈ ops, P op) : ∀ op ∈ f.squash ops, P op := by
  have hflush {v : ν} {done : List (Operation ρ)} (hv : V v) (hdone : ∀ op ∈ done, P op) :
      ∀ op ∈ f.flush v done, P op := by
    cases hn : f.isNeutral v with
    | true => rwa [flush_of_neutral hn]
    | false =>
      rw [flush_of_not_neutral hn]
      exact List.forall_mem_cons.2 ⟨hbuild hv hn, hdone⟩
  have hscan : V (f.scan ops).1 ∧ ∀ op ∈ (f.scan ops).2, P op := by
    induction ops with
    | nil => exact ⟨hneutral, nofun⟩
    | cons op ops ih =>
      obtain ⟨hop, hops⟩ := List.forall_mem_cons.1 hops
      obtain ⟨hpending, hdone⟩ := ih hops
      rw [scan]
      cases hv : f.part? op with
      | some v => exact ⟨hcombine (hpart hop hv) hpending, hdone⟩
      | none => exact ⟨hneutral, List.forall_mem_cons.2 ⟨hop, hflush hpending hdone⟩⟩
  exact hflush hscan.1 hscan.2

lemma part?_eq_some {f : Fusion ρ ν} {op : Operation ρ} {v : ν} (h : f.part? op = some v) :
    op.kind = f.kind ∧ f.value? op = some v := by
  unfold part? at h
  split at h
  · exact ⟨by assumption, h⟩
  · cases h

lemma test_bothHold (E : Entity ρ) (p q : Predicate ρ) :
    ∃ r, bothHold (some p) (some q) = some r ∧
      ∀ row, r.test E row = (p.test E row && q.test E row) := by
  cases p with
  | always => exact ⟨q, rfl, fun row => by simp [Predicate.test]⟩
  | _ =>
    cases q with
    | always => exact ⟨_, rfl, fun row => by simp [Predicate.test]⟩
    | _ => exact ⟨_, rfl, fun row => Predicate.test_and E row _ _⟩

lemma filters_sound (E : Entity ρ) : (filters E).Sound E fun _ => True where
  isNeutral_neutral := rfl
  valid_neutral := trivial
  part := by
    intro op v hop hv
    obtain ⟨hkind, hv⟩ := part?_eq_some hv
    obtain ⟨p, rfl⟩ := hop.hasForm hkind
    cases hv
    exact ⟨trivial, rfl, nofun⟩
  left := by
    intro v w hv
    obtain rfl := Option.isNone_iff_eq_none.1 hv
    rcases w with _ | ⟨_ | _⟩ <;> rfl
  right := by
    intro v w hw
    obtain rfl := Option.isNone_iff_eq_none.1 hw
    rcases v with _ | ⟨_ | _⟩ <;> rfl
  fuses := by
    intro v w _ _ hv hw
    cases v with
    | none => cases hv
    | some p =>
      cases w with
      | none => cases hw
      | some q =>
        obtain ⟨r, hr, htest⟩ := test_bothHold E p q
        rw [show (filters E).combine (some p) (some q) = some r from hr]
        exact ⟨trivial, rfl, .filters htest⟩

lemma sorts_sound (E : Entity ρ) : (sorts E).Sound E fun v => ∀ c ∈ v, c.IsOrder where
  isNeutral_neutral := rfl
  valid_neutral := nofun
  part := by
    intro op v hop hv
    obtain ⟨hkind, hv⟩ := part?_eq_some hv
    rcases hop.hasForm hkind with rfl | ⟨c, hc, rfl⟩
    · cases hv
    · cases hv
      refine ⟨?_, rfl, nofun⟩
      rintro _ ⟨⟩
      exact hc
  left := by
    intro v w hv
    obtain rfl := Option.isNone_iff_eq_none.1 hv
    cases w <;> rfl
  right := by
    intro v w hw
    obtain rfl := Option.isNone_iff_eq_none.1 hw
    cases v <;> rfl
  fuses := by
    intro v w hv hw hnv hnw
    cases v with
    | none => cases hnv
    | some c =>
      cases w with
      | none => cases hnw
      | some d =>
        refine ⟨?_, rfl, .sorts (hv c rfl) (hw d rfl)⟩
        rintro _ ⟨⟩
        exact (hw d rfl).andThen (hv c rfl)

lemma skips_sound (E : Entity ρ) : (skips (ρ := ρ)).Sound E fun _ => True where
  isNeutral_neutral := rfl
  valid_neutral := trivial
  part := by
    intro op n hop hn
    obtain ⟨hkind, hn⟩ := part?_eq_some hn
    obtain ⟨n, rfl⟩ := hop.hasForm hkind
    cases hn
    refine ⟨trivial, rfl, fun h => ?_⟩
    obtain rfl : n = 0 := eq_of_beq h
    exact .noSkip
  left := by
    intro m n hm
    obtain rfl : m = 0 := eq_of_beq hm
    exact Count.zero_add n
  right := by
    intro m n hn
    obtain rfl : n = 0 := eq_of_beq hn
    exact Count.add_zero m
  fuses := by
    intro m n _ _ hm hn
    refine ⟨trivial, ?_, .skips m n⟩
    have hm : m ≠ 0 := by simpa [skips] using hm
    have h : Count.add m n ≠ 0 := fun h => hm (Count.eq_zero_of_add_eq_zero h)
    simpa [skips] using h

lemma limits_sound (E : Entity ρ) : (limits (ρ := ρ)).Sound E fun _ => True where
  isNeutral_neutral := rfl
  valid_neutral := trivial
  part := by
    intro op n hop hn
    obtain ⟨hkind, hn⟩ := part?_eq_some hn
    obtain ⟨n, rfl⟩ := hop.hasForm hkind
    cases hn
    refine ⟨trivial, rfl, fun h => ?_⟩
    obtain rfl : n = Count.greatest := eq_of_beq h
    exact .noLimit
  left := by
    intro m n hm
    obtain rfl : m = Count.greatest := eq_of_beq hm
    exact Count.greatest_min n
  right := by
    intro m n hn
    obtain rfl : n = Count.greatest := eq_of_beq hn
    exact Count.min_greatest m
  fuses := by
    intro m n _ _ hm hn
    refine ⟨trivial, ?_, .limits m n⟩
    have hm : m ≠ Count.greatest := by simpa [limits] using hm
    have hn : n ≠ Count.greatest := by simpa [limits] using hn
    have h : Count.min m n ≠ Count.greatest := by
      unfold Count.min
      split <;> assumption
    simpa [limits] using h

end Fusion

namespace Operation

variable {ρ : Type} {E : Entity ρ}

lemma Regular.eq_distinct {op : Operation ρ} (h : op.Regular E) (hbare : op.isBareDistinct = true) :
    op = distinct E := by
  have hkind : op.kind = .distinct := eq_of_beq (Bool.and_eq_true_iff.1 hbare).1
  exact h.hasForm hkind

lemma collapseDistinctAfter_sublist (bare : Bool) (ops : List (Operation ρ)) :
    (collapseDistinctAfter bare ops).Sublist ops := by
  induction ops generalizing bare with
  | nil => exact .slnil
  | cons op ops ih =>
    rw [collapseDistinctAfter]
    split
    · exact (ih true).cons op
    · exact (ih _).cons_cons op

lemma rewrites_collapseDistinctAfter {ops : List (Operation ρ)} (hops : ∀ op ∈ ops, op.Regular E) :
    Rewrites E ops (collapseDistinctAfter false ops) ∧
      Rewrites E (distinct E :: ops) (distinct E :: collapseDistinctAfter true ops) := by
  induction ops with
  | nil => exact ⟨.refl _, .refl _⟩
  | cons op ops ih =>
    obtain ⟨hop, hops⟩ := List.forall_mem_cons.1 hops
    obtain ⟨hfalse, htrue⟩ := ih hops
    cases hbare : op.isBareDistinct with
    | true =>
      obtain rfl := hop.eq_distinct hbare
      simp only [collapseDistinctAfter, hbare, Bool.and_true, Bool.false_eq_true, if_false, if_true]
      exact ⟨htrue, (Rewrites.front .distincts ops).trans htrue⟩
    | false =>
      simp only [collapseDistinctAfter, hbare, Bool.and_false, Bool.false_eq_true, if_false]
      exact ⟨hfalse.cons op, (hfalse.cons op).cons _⟩

lemma rewrites_squashOnce {ops : List (Operation ρ)} (hops : ∀ op ∈ ops, op.Regular E) :
    Rewrites E ops (squashOnce E ops) := by
  have hfilters := (Fusion.filters_sound E).rewrites_squash hops
  have hsorts := hfilters.trans
    ((Fusion.sorts_sound E).rewrites_squash (hfilters.regular hops))
  have hdistincts := hsorts.trans (rewrites_collapseDistinctAfter (hsorts.regular hops)).1
  have hskips := hdistincts.trans
    ((Fusion.skips_sound E).rewrites_squash (hdistincts.regular hops))
  exact hskips.trans ((Fusion.limits_sound E).rewrites_squash (hskips.regular hops))

theorem rewrites_squashToFixpoint {ops : List (Operation ρ)} (hops : ∀ op ∈ ops, op.Regular E) :
    Rewrites E ops (squashToFixpoint E ops) := by
  fun_induction squashToFixpoint E ops with
  | case1 ops next hfewer ih =>
    have hnext := rewrites_squashOnce hops
    exact hnext.trans (ih (hnext.regular hops))
  | case2 ops next hdone => exact rewrites_squashOnce hops

end Operation

namespace Interpretation

open Operation

variable {ρ σ : Type}

/-- The rules of squashing do not change what the interpretation makes of an element that fits. -/
def Obeys (E : Entity ρ) (I : Interpretation ρ σ) : Prop :=
  ∀ front front' : List (Operation ρ), FusesInto E front front' →
    ∀ x, I.Fits x → I.run? front' x = I.run? front x

lemma flows_obeys (E : Entity ρ) : (flows (ρ := ρ)).Obeys E := by
  intro front front' h flow hfits
  rw [run?_flows, run?_flows]
  cases h with
  | @filters p q r h =>
    have hr : (fun row => r.test E row) = fun row => p.test E row && q.test E row := funext h
    simp [replay?_cons, filter, Flow.filter_filter, hr]
  | sorts hc hd =>
    have hcd := funext (Comparator.sort_sort E hc hd)
    simp [replay?_cons, sortedBy, Flow.rearrange_rearrange, hcd]
  | distincts => simp [replay?_cons, distinct, Flow.distinct_distinct]
  | skips m n =>
    have hdrop : flow.drop (m.toNat + n.toNat) = flow.drop (Count.add m n).toNat := by
      have hlt : flow.rows.length < UInt64.size := hfits.1
      rw [Count.toNat_add]
      by_cases h : m.toNat + n.toNat < UInt64.size
      · rw [Nat.min_eq_left (by omega)]
      · apply Flow.drop_eq_of_length_le
        · omega
        · omega
    simp [replay?_cons, skip, Flow.drop_drop, hdrop]
  | limits m n => simp [replay?_cons, limit, Flow.take_take, Count.toNat_min]
  | noSkip => simp [replay?_cons, skip]
  | noLimit => simp [replay?_cons, limit, (Flow.bounded_iff hfits.1).1 hfits]

lemma lists_obeys (E : Entity ρ) : (lists (ρ := ρ)).Obeys E := by
  intro front front' h rows hfits
  have hrows : ∀ op ∈ front ++ front', op.RowWise :=
    fun op hop => (Standard.selects (h.selects op hop)).rowWise
  obtain ⟨hrowsFront, hrowsBack⟩ := List.forall_mem_append.1 hrows
  have hflows := flows_obeys E front front' h (.ofRows rows) (Flow.bounded_ofRows hfits)
  rw [run?_flows, run?_flows] at hflows
  have hback := run?_lists hrowsBack (.ofRows rows)
  have hfront := run?_lists hrowsFront (.ofRows rows)
  rw [Flow.rows_ofRows] at hback hfront
  rw [hback, hfront, hflows]

/-- Squashed operations do what the operations did that they come from, and nothing gets too long
on the way. -/
theorem Obeys.run?_rewrites {E : Entity ρ} {I : Interpretation ρ σ} (hI : I.Obeys E)
    {ops ops' : List (Operation ρ)} (h : Rewrites E ops ops') {x : σ}
    (hx : I.FitsThroughout ops x) :
    I.run? ops' x = I.run? ops x ∧ I.FitsThroughout ops' x := by
  induction h generalizing x with
  | refl ops => exact ⟨rfl, hx⟩
  | @front front front' h rest =>
    have hrun := hI front front' h x hx.fits
    refine ⟨by rw [run?_append, run?_append, hrun], ?_⟩
    cases front' with
    | nil => exact hx.append hrun.symm
    | cons op more =>
      cases more with
      | nil =>
        refine ⟨hx.fits, fun y hy => hx.append ?_⟩
        rw [← hrun, run?, hy]
        rfl
      | cons _ _ => cases h
  | cons op h ih =>
    have hstep : ∀ y, I.perform? op x = some y → _ := fun y hy => ih (hx.2 y hy)
    refine ⟨?_, hx.1, fun y hy => (hstep y hy).2⟩
    rw [run?, run?]
    cases hy : I.perform? op x with
    | none => rfl
    | some y => exact (hstep y hy).1
  | trans hab hbc ihab ihbc =>
    obtain ⟨hrun, hfits⟩ := ihab hx
    obtain ⟨hrun', hfits'⟩ := ihbc hfits
    exact ⟨hrun'.trans hrun, hfits'⟩

end Interpretation

namespace Operation

open Interpretation

variable {ρ : Type}

/-- What comes out of row-wise operations by the rules of squashing hands out the same rows. -/
lemma Rewrites.rows_replay? {E : Entity ρ} {ops ops' : List (Operation ρ)}
    (h : Rewrites E ops ops') (hops : ∀ op ∈ ops, op.RowWise) {rows : List ρ}
    (hrows : lists.FitsThroughout ops rows) :
    (replay? ops' (.ofRows rows)).map Flow.rows = (replay? ops (.ofRows rows)).map Flow.rows := by
  have hrun := ((lists_obeys E).run?_rewrites h hrows).1
  have hbefore := run?_lists hops (.ofRows rows)
  have hafter := run?_lists (rowWise_of_mem hops h.mem) (.ofRows rows)
  rw [Flow.rows_ofRows] at hbefore hafter
  rw [← hbefore, ← hafter, hrun]

/-- Squashed operations hand out the rows that the original ones hand out, in their order. -/
theorem rows_replay_squashToFixpoint (E : Entity ρ) {ops : List (Operation ρ)}
    (hops : ∀ op ∈ ops, op.Standard E ∨ op.IsCustom ∧ op.RowWise) {rows : List ρ}
    (hrows : lists.FitsThroughout ops rows) :
    (replay? (squashToFixpoint E ops) (.ofRows rows)).map Flow.rows =
      (replay? ops (.ofRows rows)).map Flow.rows := by
  have hregular : ∀ op ∈ ops, op.Regular E := fun op hop => (hops op hop).imp_right And.left
  have hrowWise : ∀ op ∈ ops, op.RowWise :=
    fun op hop => (hops op hop).elim Standard.rowWise And.right
  exact (rewrites_squashToFixpoint hregular).rows_replay? hrowWise hrows

theorem rows_replay_squashToFixpoint_records :
    let E := Entity.ofColumns "User" "id" ["id", "name"]
    let row (n : Int64) (name : String) : Record := ⟨[("id", .int n), ("name", .text name)]⟩
    let reversed := (custom "REVERSED").withTransform (.rearrange List.reverse)
    let ops := [filter E .always, filter E (.column ⟨"name", .ne (.text "C")⟩), distinct E,
      limit Count.greatest, distinct E, sortedBy E (.column "name" .descending),
      sortedBy E .natural, reversed, skip 1, skip 0, peek ⟨1, "seen"⟩, limit 3]
    let rows := [row 3 "A", row 1 "B", row 2 "C", row 3 "A", row 4 "B", row 5 "D"]
    (∀ op ∈ ops, op.Standard E ∨ op.IsCustom ∧ op.RowWise) ∧ lists.FitsThroughout ops rows ∧
      (replay? (squashToFixpoint E ops) (.ofRows rows)).map Flow.rows =
        (replay? ops (.ofRows rows)).map Flow.rows := by
  intro E row reversed ops rows
  have hcustom : reversed.IsCustom ∧ reversed.RowWise :=
    ⟨⟨_, rfl⟩, rowWise_withTransform_rearrange _ List.reverse⟩
  have hshrinks : reversed.Shrinks :=
    shrinks_withTransform_rearrange _ fun _ => Nat.le_of_eq List.length_reverse
  have hops : ∀ op ∈ ops, (op.Standard E ∧ op.kind ≠ .flatMap) ∨ op = reversed := by
    simp only [ops, List.forall_mem_cons]
    exact ⟨Or.inl ⟨.selects (.filter _), nofun⟩, Or.inl ⟨.selects (.filter _), nofun⟩,
      Or.inl ⟨.selects .distinct, nofun⟩, Or.inl ⟨.selects (.limit _), nofun⟩,
      Or.inl ⟨.selects .distinct, nofun⟩, Or.inl ⟨.selects (.sortedBy trivial), nofun⟩,
      Or.inl ⟨.selects (.sortedBy trivial), nofun⟩, Or.inr trivial, Or.inl ⟨.selects (.skip _), nofun⟩,
      Or.inl ⟨.selects (.skip _), nofun⟩, Or.inl ⟨.peek _, nofun⟩,
      Or.inl ⟨.selects (.limit _), nofun⟩, nofun⟩
  have hknown : ∀ op ∈ ops, op.Standard E ∨ op.IsCustom ∧ op.RowWise := by
    intro op hop
    rcases hops op hop with h | rfl
    · exact Or.inl h.1
    · exact Or.inr hcustom
  have hrows : lists.FitsThroughout ops rows := by
    refine lists_fitsThroughout (fun op hop => ?_) (by decide)
    rcases hops op hop with h | rfl
    · exact h.1.shrinks h.2
    · exact hshrinks
  exact ⟨hknown, hrows, rows_replay_squashToFixpoint E hknown hrows⟩

end Operation
end Pushdown
