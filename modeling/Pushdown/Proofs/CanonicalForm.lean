import Mathlib.Logic.Function.Iterate
import Pushdown.Proofs.RunFusion

/-!
# Canonical form

Squashing goes on until a round leaves as many operations as it finds. Such a round has fused
nothing and dropped nothing, though it has built anew what it could have fused. So what squashing
returns has no operation that does nothing and no neighbours that could be one, and squashing it
once more changes nothing.
-/

namespace Pushdown

open Operation

variable {ρ ν : Type}

namespace Operation

/-- No two neighbours have the property. -/
def Apart (P : Operation ρ → Prop) (ops : List (Operation ρ)) : Prop :=
  ops.IsChain fun a b => ¬ (P a ∧ P b)

section Apart

variable {P Q : Operation ρ → Prop} {op : Operation ρ} {ops : List (Operation ρ)}

lemma apart_cons : Apart P (op :: ops) ↔ (P op → ∀ next ∈ ops.head?, ¬ P next) ∧ Apart P ops := by
  rw [Apart, List.isChain_cons]
  constructor
  · rintro ⟨hfirst, hrest⟩
    exact ⟨fun hop next hnext hP => hfirst next hnext ⟨hop, hP⟩, hrest⟩
  · rintro ⟨hfirst, hrest⟩
    exact ⟨fun next hnext hP => hfirst hP.1 next hnext hP.2, hrest⟩

lemma apart_map {g : Operation ρ → Operation ρ} (h : ∀ op, P (g op) ↔ P op) :
    Apart P (ops.map g) ↔ Apart P ops := by
  simp only [Apart, List.isChain_map, h]

lemma Apart.of_imp (hops : Apart P ops) (h : ∀ op ∈ ops, Q op → P op) : Apart Q ops :=
  hops.imp_of_mem_imp fun a b ha hb hab hQ => hab ⟨h a ha hQ.1, h b hb hQ.2⟩

end Apart

end Operation

namespace Fusion

variable {f : Fusion ρ ν} {op : Operation ρ} {ops : List (Operation ρ)}

/-- A fusion takes the value back that it has built an operation for. -/
structure Rebuilds (f : Fusion ρ ν) : Prop where
  isNeutral_neutral : f.isNeutral f.neutral = true
  combine_neutral : ∀ v, f.combine v f.neutral = v
  kind_build : ∀ v, (f.build v).kind = f.kind
  part?_build : ∀ {v}, f.isNeutral v = false → f.part? (f.build v) = some v

lemma filters_rebuilds (E : Entity ρ) : (filters E).Rebuilds where
  isNeutral_neutral := rfl
  combine_neutral v := (filters_sound E).right v rfl
  kind_build _ := rfl
  part?_build := by
    intro v hv
    cases v with
    | none => cases hv
    | some p => rfl

lemma sorts_rebuilds (E : Entity ρ) : (sorts E).Rebuilds where
  isNeutral_neutral := rfl
  combine_neutral v := (sorts_sound E).right v rfl
  kind_build v := by cases v <;> rfl
  part?_build := by
    intro v hv
    cases v with
    | none => cases hv
    | some c => rfl

lemma skips_rebuilds : (skips (ρ := ρ)).Rebuilds where
  isNeutral_neutral := rfl
  combine_neutral := Count.add_zero
  kind_build _ := rfl
  part?_build _ := rfl

lemma limits_rebuilds : (limits (ρ := ρ)).Rebuilds where
  isNeutral_neutral := rfl
  combine_neutral := Count.min_greatest
  kind_build _ := rfl
  part?_build _ := rfl

/-- The operation that the fusion builds for a part on its own. -/
def rebuild (f : Fusion ρ ν) (op : Operation ρ) : Operation ρ := ((f.part? op).map f.build).getD op

lemma rebuild_of_not_isPart (h : f.isPart op = false) : f.rebuild op = op := by
  rw [rebuild, part?_eq_none h]
  rfl

lemma part?_of_kind (h : op.kind = f.kind) : f.part? op = f.value? op := if_pos h

lemma isPart_eq_false_of_kind_ne (h : op.kind ≠ f.kind) : f.isPart op = false := by
  rw [isPart, part?, if_neg h]
  rfl

lemma kind_rebuild (hf : f.Rebuilds) (op : Operation ρ) : (f.rebuild op).kind = op.kind := by
  unfold rebuild
  cases hv : f.part? op with
  | none => rfl
  | some v => exact (hf.kind_build v).trans (part?_eq_some hv).1.symm

/-- There is nothing to fuse: each part stands alone, does something, and is as it is built. -/
structure Settled (f : Fusion ρ ν) (ops : List (Operation ρ)) : Prop where
  apart : Apart (fun op => f.isPart op = true) ops
  built : ∀ op ∈ ops, ∀ v, f.part? op = some v → f.isNeutral v = false ∧ f.build v = op

lemma settled_nil : f.Settled [] := ⟨.nil, nofun⟩

lemma settled_cons_of_not_isPart (hop : f.isPart op = false) :
    f.Settled (op :: ops) ↔ f.Settled ops := by
  have hnone := part?_eq_none hop
  constructor
  · rintro ⟨hapart, hbuilt⟩
    exact ⟨(apart_cons.1 hapart).2, (List.forall_mem_cons.1 hbuilt).2⟩
  · rintro ⟨hapart, hbuilt⟩
    refine ⟨apart_cons.2 ⟨fun h => ?_, hapart⟩, List.forall_mem_cons.2 ⟨fun v hv => ?_, hbuilt⟩⟩
    · rw [hop] at h
      cases h
    · rw [hnone] at hv
      cases hv

/-- A part in front of no other part is squashed on its own. -/
lemma squash_cons_of_part? (hf : f.Rebuilds) {v : ν} (hv : f.part? op = some v)
    (hops : ∀ next ∈ ops.head?, f.isPart next = false) :
    f.squash (op :: ops) = f.flush v (f.squash ops) := by
  have hpart : f.isPart op = true := Option.isSome_of_mem hv
  have hrun := squash_append_of_forall_isPart hf.isNeutral_neutral
    (List.forall_mem_singleton.2 hpart) hops
  have hfused : f.fuseRun [op] = f.flush v [] := by
    rw [fuseRun, List.mapM_cons, hv]
    simp [flush, hf.combine_neutral]
  rw [List.singleton_append] at hrun
  rw [hrun, hfused, ← flush_eq_append]

lemma squash_cons_of_not_isPart (hf : f.Rebuilds) (hop : f.isPart op = false) :
    f.squash (op :: ops) = op :: f.squash ops := by
  rw [squash_def, scan_of_not_isPart hop]
  exact flush_of_neutral hf.isNeutral_neutral _

/-- However many parts stand in front, they add one operation at most. -/
lemma length_squash_append_le {run : List (Operation ρ)} (hrun : ∀ op ∈ run, f.isPart op = true)
    (rest : List (Operation ρ)) : (f.squash (run ++ rest)).length ≤ (f.squash rest).length + 1 := by
  have hflush (v : ν) (done : List (Operation ρ)) :
      done.length ≤ (f.flush v done).length ∧ (f.flush v done).length ≤ done.length + 1 := by
    unfold flush
    split
    · exact ⟨Nat.le_refl _, Nat.le_succ _⟩
    · exact ⟨Nat.le_succ _, Nat.le_refl _⟩
  obtain ⟨values, hvalues⟩ := exists_mapM_part? hrun
  have hmost := (hflush (values.foldr f.combine (f.scan rest).1) (f.scan rest).2).2
  have hleast := (hflush (f.scan rest).1 (f.scan rest).2).1
  rw [squash_def, scan_append_of_mapM hvalues, squash_def]
  exact hmost.trans (Nat.succ_le_succ hleast)

lemma length_squash_le (hf : f.Rebuilds) (ops : List (Operation ρ)) :
    (f.squash ops).length ≤ ops.length := by
  induction ops with
  | nil => exact (congrArg List.length (squash_nil hf.isNeutral_neutral)).le
  | cons op ops ih =>
    cases hop : f.isPart op with
    | false =>
      rw [squash_cons_of_not_isPart hf hop]
      exact Nat.succ_le_succ ih
    | true =>
      have hle := length_squash_append_le (List.forall_mem_singleton.2 hop) ops
      rw [List.singleton_append] at hle
      rw [List.length_cons]
      omega

/-- Two parts side by side become one operation at most. -/
lemma length_squash_lt_of_neighbours (hf : f.Rebuilds) {next : Operation ρ}
    (hop : f.isPart op = true) (hnext : f.isPart next = true) (rest : List (Operation ρ)) :
    (f.squash (op :: next :: rest)).length < (op :: next :: rest).length := by
  have hrun : ∀ part ∈ [op, next], f.isPart part = true :=
    List.forall_mem_cons.2 ⟨hop, List.forall_mem_singleton.2 hnext⟩
  have hmost := length_squash_append_le hrun rest
  have hle := length_squash_le hf rest
  simp only [List.cons_append, List.nil_append] at hmost
  rw [List.length_cons, List.length_cons]
  omega

/-- What is built for a part settles in front of an operation that is none. -/
lemma Settled.cons_build (h : f.Settled ops) (hf : f.Rebuilds) {v : ν}
    (hn : f.isNeutral v = false) (hops : ∀ next ∈ ops.head?, f.isPart next = false) :
    f.Settled (f.build v :: ops) := by
  refine ⟨apart_cons.2 ⟨fun _ next hnext => ?_, h.apart⟩, ?_⟩
  · rw [hops next hnext]
    exact Bool.false_ne_true
  · refine List.forall_mem_cons.2 ⟨fun w hw => ?_, h.built⟩
    obtain rfl : v = w := Option.some.inj ((hf.part?_build hn).symm.trans hw)
    exact ⟨hn, rfl⟩

/-- Squashing makes the operations fewer, or it only builds parts anew that stand alone. -/
lemma squash_cases (hf : f.Rebuilds) (ops : List (Operation ρ)) :
    (f.squash ops).length < ops.length ∨
      f.squash ops = ops.map f.rebuild ∧ f.Settled (f.squash ops) := by
  induction ops with
  | nil =>
    rw [squash_nil hf.isNeutral_neutral]
    exact Or.inr ⟨rfl, settled_nil⟩
  | cons op ops ih =>
    cases hop : f.isPart op with
    | false =>
      rw [squash_cons_of_not_isPart hf hop, List.map_cons, rebuild_of_not_isPart hop,
        settled_cons_of_not_isPart hop]
      exact ih.imp Nat.succ_lt_succ (And.imp_left (congrArg (List.cons op)))
    | true =>
      obtain ⟨v, hv⟩ := Option.isSome_iff_exists.1 hop
      by_cases hnext : ∃ next ∈ ops.head?, f.isPart next = true
      · obtain ⟨next, hhead, hpart⟩ := hnext
        obtain ⟨rest, rfl⟩ := List.head?_eq_some_iff.1 hhead
        exact Or.inl (length_squash_lt_of_neighbours hf hop hpart rest)
      · simp only [not_exists, not_and, Bool.not_eq_true] at hnext
        rw [squash_cons_of_part? hf hv hnext]
        cases hn : f.isNeutral v with
        | true =>
          rw [flush_of_neutral hn]
          exact Or.inl (Nat.lt_succ_of_le (length_squash_le hf ops))
        | false =>
          rw [flush_of_not_neutral hn]
          refine ih.imp Nat.succ_lt_succ ?_
          rintro ⟨hmap, hsettled⟩
          have hself : f.rebuild op = f.build v := by
            rw [rebuild, hv]
            rfl
          have hfirst : ∀ next ∈ (f.squash ops).head?, f.isPart next = false := by
            intro next hmem
            rw [hmap, List.head?_map] at hmem
            obtain ⟨old, hold, rfl⟩ := Option.map_eq_some_iff.1 hmem
            rw [rebuild_of_not_isPart (hnext old hold), hnext old hold]
          refine ⟨?_, hsettled.cons_build hf hn hfirst⟩
          rw [List.map_cons, hself, hmap]

lemma squash_of_settled (hf : f.Rebuilds) (h : f.Settled ops) : f.squash ops = ops := by
  induction ops with
  | nil => exact squash_nil hf.isNeutral_neutral
  | cons op ops ih =>
    cases hop : f.isPart op with
    | false => rw [squash_cons_of_not_isPart hf hop, ih ((settled_cons_of_not_isPart hop).1 h)]
    | true =>
      obtain ⟨v, hv⟩ := Option.isSome_iff_exists.1 hop
      obtain ⟨hnext, hapart⟩ := apart_cons.1 h.apart
      obtain ⟨hself, hbuilt⟩ := List.forall_mem_cons.1 h.built
      obtain ⟨hn, hbuild⟩ := hself v hv
      rw [squash_cons_of_part? hf hv fun next hmem => Bool.not_eq_true _ ▸ hnext hop next hmem,
        ih ⟨hapart, hbuilt⟩, flush_of_not_neutral hn, hbuild]

section Same

variable (hf : f.Rebuilds) (hsame : ops.length ≤ (f.squash ops).length)

include hf hsame

lemma squash_of_length_le : f.squash ops = ops.map f.rebuild ∧ f.Settled (f.squash ops) :=
  (squash_cases hf ops).resolve_left (Nat.not_lt.2 hsame)

/-- Building parts anew touches only operations of their kind. -/
lemma apart_squash {P : Operation ρ → Prop} (hP : ∀ op, P op → op.kind ≠ f.kind)
    (h : Apart P ops) : Apart P (f.squash ops) := by
  rw [(squash_of_length_le hf hsame).1, apart_map fun op => ?_]
  · exact h
  · by_cases hkind : op.kind = f.kind
    · refine iff_of_false (fun hop => hP _ hop ?_) fun hop => hP op hop hkind
      rw [kind_rebuild hf, hkind]
    · rw [rebuild_of_not_isPart (isPart_eq_false_of_kind_ne hkind)]

/-- What one fusion has settled stays so while another one builds its parts anew. -/
lemma Settled.squash {ν' : Type} {g : Fusion ρ ν'} (h : g.Settled ops) (hkind : g.kind ≠ f.kind) :
    g.Settled (f.squash ops) := by
  have hother : ∀ op, g.isPart op = true → op.kind ≠ f.kind := by
    intro op hop hop'
    obtain ⟨v, hv⟩ := Option.isSome_iff_exists.1 hop
    exact hkind ((part?_eq_some hv).1.symm.trans hop')
  refine ⟨apart_squash hf hsame hother h.apart, ?_⟩
  intro op hop v hv
  rw [(squash_of_length_le hf hsame).1] at hop
  obtain ⟨old, hold, rfl⟩ := List.mem_map.1 hop
  have hkept : f.rebuild old = old := by
    have hne := hother _ (Option.isSome_of_mem hv)
    rw [kind_rebuild hf] at hne
    exact rebuild_of_not_isPart (isPart_eq_false_of_kind_ne hne)
  rw [hkept] at hv ⊢
  exact h.built old hold v hv

end Same

end Fusion

namespace Operation

variable {E : Entity ρ} {ops : List (Operation ρ)}

/-- Collapsing keeps all operations just if no DISTINCT without arguments follows another. -/
lemma collapseDistinctAfter_eq_self_iff (bare : Bool) (ops : List (Operation ρ)) :
    collapseDistinctAfter bare ops = ops ↔
      (bare = true → ∀ op ∈ ops.head?, ¬ op.isBareDistinct = true) ∧
        Apart (fun op => op.isBareDistinct = true) ops := by
  induction ops generalizing bare with
  | nil => exact iff_of_true rfl ⟨fun _ => nofun, .nil⟩
  | cons op ops ih =>
    rw [collapseDistinctAfter, apart_cons]
    by_cases hdrops : (bare && op.isBareDistinct) = true
    · rw [if_pos hdrops]
      obtain ⟨hbare, hop⟩ := Bool.and_eq_true_iff.1 hdrops
      refine iff_of_false (fun hsame => ?_) fun h => h.1 hbare op rfl hop
      have hle := (collapseDistinctAfter_sublist true ops).length_le
      rw [hsame, List.length_cons] at hle
      omega
    · rw [if_neg hdrops, List.cons_inj_right, ih]
      have hfirst : bare = true → ∀ next ∈ (op :: ops).head?, ¬ next.isBareDistinct = true := by
        rintro hbare _ ⟨⟩ hop
        exact hdrops (Bool.and_eq_true_iff.2 ⟨hbare, hop⟩)
      exact (and_iff_right hfirst).symm

/-- A pass that makes the operations fewer, or leaves as many of them in the state `Q`. -/
structure Tidies (pass : List (Operation ρ) → List (Operation ρ))
    (Q : List (Operation ρ) → Prop) : Prop where
  length_le : ∀ ops, (pass ops).length ≤ ops.length
  state : ∀ {ops}, ops.length ≤ (pass ops).length → Q (pass ops)

/-- If none of two passes makes the operations fewer, the second one has to keep the state that the
first one leaves. -/
lemma Tidies.andThen {pass next : List (Operation ρ) → List (Operation ρ)}
    {Q R : List (Operation ρ) → Prop} (h : Tidies pass Q) (h' : Tidies next R)
    (hkeeps : ∀ {ops}, ops.length ≤ (next ops).length → Q ops → Q (next ops)) :
    Tidies (fun ops => next (pass ops)) fun ops => Q ops ∧ R ops where
  length_le ops := (h'.length_le (pass ops)).trans (h.length_le ops)
  state {ops} hsame := by
    have hfirst := h.length_le ops
    have hsecond := h'.length_le (pass ops)
    have hsame' : (pass ops).length ≤ (next (pass ops)).length := by omega
    exact ⟨hkeeps hsame' (h.state (by omega)), h'.state hsame'⟩

lemma tidies_squash {f : Fusion ρ ν} (hf : f.Rebuilds) : Tidies f.squash f.Settled where
  length_le := Fusion.length_squash_le hf
  state hsame := (Fusion.squash_of_length_le hf hsame).2

lemma collapseDistinct_of_length_le (h : ops.length ≤ (collapseDistinct ops).length) :
    collapseDistinct ops = ops :=
  (collapseDistinctAfter_sublist false ops).eq_of_length_le h

lemma tidies_collapseDistinct :
    Tidies (ρ := ρ) collapseDistinct (Apart fun op => op.isBareDistinct = true) where
  length_le ops := (collapseDistinctAfter_sublist false ops).length_le
  state hsame := by
    have hkept := collapseDistinct_of_length_le hsame
    rw [hkept]
    exact ((collapseDistinctAfter_eq_self_iff false _).1 hkept).2

/-- A round of squashing has nothing to do. -/
structure Fused (E : Entity ρ) (ops : List (Operation ρ)) : Prop where
  filters : (Fusion.filters E).Settled ops
  sorts : (Fusion.sorts E).Settled ops
  distincts : Apart (fun op => op.isBareDistinct = true) ops
  skips : Fusion.skips.Settled ops
  limits : Fusion.limits.Settled ops

lemma squashOnce_of_fused (h : Fused E ops) : squashOnce E ops = ops := by
  have hdistincts : collapseDistinct ops = ops :=
    (collapseDistinctAfter_eq_self_iff false ops).2 ⟨nofun, h.distincts⟩
  simp only [squashOnce, Fusion.squash_of_settled (Fusion.filters_rebuilds E) h.filters,
    Fusion.squash_of_settled (Fusion.sorts_rebuilds E) h.sorts, hdistincts,
    Fusion.squash_of_settled Fusion.skips_rebuilds h.skips,
    Fusion.squash_of_settled Fusion.limits_rebuilds h.limits]

/-- A round of squashing makes the operations fewer, or it leaves nothing to do for another. -/
lemma tidies_squashOnce (E : Entity ρ) : Tidies (squashOnce E) (Fused E) := by
  have hbare {kind : Kind} (hkind : kind ≠ .distinct) (op : Operation ρ)
      (hop : op.isBareDistinct = true) : op.kind ≠ kind := by
    rintro rfl
    exact hkind (eq_of_beq (Bool.and_eq_true_iff.1 hop).1)
  have hsorts := Fusion.sorts_rebuilds E
  have hskips := Fusion.skips_rebuilds (ρ := ρ)
  have hlimits := Fusion.limits_rebuilds (ρ := ρ)
  have harranged := (tidies_squash (Fusion.filters_rebuilds E)).andThen (tidies_squash hsorts)
    fun hsame h => h.squash hsorts hsame nofun
  have hcollapsed := harranged.andThen tidies_collapseDistinct fun hsame h => by
    rwa [collapseDistinct_of_length_le hsame]
  have hskipped := hcollapsed.andThen (tidies_squash hskips) fun hsame ⟨⟨hF, hS⟩, hD⟩ =>
    ⟨⟨hF.squash hskips hsame nofun, hS.squash hskips hsame nofun⟩,
      Fusion.apart_squash hskips hsame (hbare nofun) hD⟩
  have hlimited := hskipped.andThen (tidies_squash hlimits) fun hsame ⟨⟨⟨hF, hS⟩, hD⟩, hK⟩ =>
    ⟨⟨⟨hF.squash hlimits hsame nofun, hS.squash hlimits hsame nofun⟩,
      Fusion.apart_squash hlimits hsame (hbare nofun) hD⟩, hK.squash hlimits hsame nofun⟩
  refine ⟨hlimited.length_le, fun hsame => ?_⟩
  obtain ⟨⟨⟨⟨hF, hS⟩, hD⟩, hK⟩, hL⟩ := hlimited.state hsame
  exact ⟨hF, hS, hD, hK, hL⟩

lemma fused_squashToFixpoint (E : Entity ρ) (ops : List (Operation ρ)) :
    Fused E (squashToFixpoint E ops) := by
  fun_induction squashToFixpoint E ops with
  | case1 ops next hfewer ih => exact ih
  | case2 ops next hdone => exact (tidies_squashOnce E).state (Nat.not_lt.1 hdone)

lemma squashToFixpoint_of_fused (h : Fused E ops) : squashToFixpoint E ops = ops := by
  rw [squashToFixpoint, squashOnce_of_fused h]
  exact if_neg (Nat.lt_irrefl _)

/-- Squashing takes its rounds until one of them does not make the operations fewer. -/
lemma exists_rounds (E : Entity ρ) (ops : List (Operation ρ)) :
    ∃ rounds ≤ ops.length, squashToFixpoint E ops = (squashOnce E)^[rounds + 1] ops ∧
      (∀ i < rounds, ((squashOnce E)^[i + 1] ops).length < ((squashOnce E)^[i] ops).length) ∧
      ((squashOnce E)^[rounds + 1] ops).length = ((squashOnce E)^[rounds] ops).length := by
  fun_induction squashToFixpoint E ops with
  | case1 ops next hfewer ih =>
    obtain ⟨rounds, hmost, hend, hfewer', hsame⟩ := ih
    refine ⟨rounds + 1, hmost.trans_lt hfewer, hend, fun i hi => ?_, hsame⟩
    cases i with
    | zero =>
      rw [Nat.zero_add, Function.iterate_one]
      exact hfewer
    | succ i => exact hfewer' i (Nat.lt_of_succ_lt_succ hi)
  | case2 ops next hdone =>
    have hle := (tidies_squashOnce E).length_le ops
    refine ⟨0, Nat.zero_le _, ?_, fun i hi => absurd hi (Nat.not_lt_zero i), ?_⟩
    · rw [Nat.zero_add, Function.iterate_one]
    · rw [Nat.zero_add, Function.iterate_one]
      exact Nat.le_antisymm hle (Nat.not_lt.1 hdone)

lemma length_squashToFixpoint_le (E : Entity ρ) (ops : List (Operation ρ)) :
    (squashToFixpoint E ops).length ≤ ops.length := by
  fun_induction squashToFixpoint E ops with
  | case1 ops next hfewer ih => exact ih.trans hfewer.le
  | case2 ops next hdone => exact (tidies_squashOnce E).length_le ops

/-- An operation as callers can make it: by a constructor, with any arguments added, and with any
other transform. -/
inductive Made (E : Entity ρ) : Operation ρ → Prop
  | filter (p : Predicate ρ) : Made E (filter E p)
  | map (g : Closure (ρ → ρ)) : Made E (map g)
  | flatMap (g : Closure (ρ → List ρ)) : Made E (flatMap g)
  | peek (o : Observer) : Made E (peek o)
  | distinct : Made E (distinct E)
  | sorted : Made E (sorted E)
  | sortedBy (c : Comparator ρ) : Made E (sortedBy E c)
  | limit (n : UInt64) : Made E (limit n)
  | skip (n : UInt64) : Made E (skip n)
  | takeWhile (p : Predicate ρ) : Made E (takeWhile E p)
  | dropWhile (p : Predicate ρ) : Made E (dropWhile E p)
  | custom (name : String) : Made E (custom name)
  | withArgument {op : Operation ρ} (h : Made E op) (a : Argument ρ) : Made E (op.withArgument a)
  | withTransform {op : Operation ρ} (h : Made E op) (t : Transform ρ) :
      Made E (op.withTransform t)

/-- A filter has a predicate, a skip or a limit has a count. -/
structure IsComplete (op : Operation ρ) : Prop where
  predicate : op.kind = .filter → op.predicate?.isSome = true
  count : op.kind = .skip ∨ op.kind = .limit → op.count?.isSome = true

lemma Made.isComplete {op : Operation ρ} (h : op.Made E) : op.IsComplete := by
  induction h with
  | withArgument h a ih =>
    refine ⟨fun hkind => ?_, fun hkind => ?_⟩
    · rw [predicate?, Operation.withArgument, List.findSome?_append, Option.isSome_or]
      exact Bool.or_eq_true_iff.2 (Or.inl (ih.predicate hkind))
    · rw [count?, Operation.withArgument, List.findSome?_append, Option.isSome_or]
      exact Bool.or_eq_true_iff.2 (Or.inl (ih.count hkind))
  | withTransform h t ih => exact ⟨ih.predicate, ih.count⟩
  | filter p => exact ⟨fun _ => rfl, nofun⟩
  | limit n => exact ⟨nofun, fun _ => rfl⟩
  | skip n => exact ⟨nofun, fun _ => rfl⟩
  | _ => exact ⟨nofun, nofun⟩

lemma isComplete_squash {f : Fusion ρ ν} (hbuild : ∀ v, (f.build v).IsComplete)
    (h : ∀ op ∈ ops, op.IsComplete) : ∀ op ∈ f.squash ops, op.IsComplete :=
  Fusion.forall_mem_squash (V := fun _ => True) trivial (fun _ _ => trivial) (fun _ _ => trivial)
    (fun {v} _ _ => hbuild v) h

lemma isComplete_squashOnce (h : ∀ op ∈ ops, op.IsComplete) :
    ∀ op ∈ squashOnce E ops, op.IsComplete := by
  have hsort : ∀ v, ((Fusion.sorts E).build v).IsComplete := by
    intro v
    cases v with
    | none => exact Made.sorted.isComplete (E := E)
    | some c => exact (Made.sortedBy c).isComplete
  have hfilters := isComplete_squash (f := Fusion.filters E) (fun _ => (Made.filter _).isComplete) h
  have hsorts := isComplete_squash (f := Fusion.sorts E) hsort hfilters
  have hdistincts : ∀ op ∈ collapseDistinct _, op.IsComplete := fun op hop =>
    hsorts op ((collapseDistinctAfter_sublist false _).subset hop)
  have hskips := isComplete_squash (f := Fusion.skips)
    (fun n => (Made.skip (E := E) n).isComplete) hdistincts
  exact isComplete_squash (f := Fusion.limits) (fun n => (Made.limit (E := E) n).isComplete) hskips

lemma isComplete_squashToFixpoint (h : ∀ op ∈ ops, op.IsComplete) :
    ∀ op ∈ squashToFixpoint E ops, op.IsComplete := by
  fun_induction squashToFixpoint E ops with
  | case1 ops next hfewer ih => exact ih (isComplete_squashOnce h)
  | case2 ops next hdone => exact isComplete_squashOnce h

/-- No operation does nothing, and no two neighbours could be one. -/
structure Canonical (ops : List (Operation ρ)) : Prop where
  noSkip : ∀ op ∈ ops, op.kind = .skip → op.count? ≠ some 0
  noLimit : ∀ op ∈ ops, op.kind = .limit → op.count? ≠ some Count.greatest
  filters : Apart (fun op => op.kind = .filter) ops
  sorts : Apart (fun op => op.kind = .sorted ∧ op.comparator?.isSome = true) ops
  distincts : Apart (fun op => op.isBareDistinct = true) ops
  skips : Apart (fun op => op.kind = .skip) ops
  limits : Apart (fun op => op.kind = .limit) ops

/-- Where every filter has a predicate and every skip and limit a count, the parts of the fusions
are all the operations of these kinds. -/
lemma Fused.canonical (h : Fused E ops) (hops : ∀ op ∈ ops, op.IsComplete) : Canonical ops where
  noSkip op hop hkind hzero := by
    have hpart := (Fusion.part?_of_kind (f := Fusion.skips) hkind).trans hzero
    exact absurd (h.skips.built op hop 0 hpart).1 nofun
  noLimit op hop hkind hgreatest := by
    have hpart := (Fusion.part?_of_kind (f := Fusion.limits) hkind).trans hgreatest
    exact absurd (h.limits.built op hop Count.greatest hpart).1 nofun
  filters := h.filters.apart.of_imp fun op hop hkind => by
    rw [Fusion.isPart, Fusion.part?_of_kind hkind]
    exact Option.isSome_map.trans ((hops op hop).predicate hkind)
  sorts := h.sorts.apart.of_imp fun op hop hsorts => by
    rw [Fusion.isPart, Fusion.part?_of_kind hsorts.1]
    exact Option.isSome_map.trans hsorts.2
  distincts := h.distincts
  skips := h.skips.apart.of_imp fun op hop hkind => by
    rw [Fusion.isPart, Fusion.part?_of_kind hkind]
    exact (hops op hop).count (Or.inl hkind)
  limits := h.limits.apart.of_imp fun op hop hkind => by
    rw [Fusion.isPart, Fusion.part?_of_kind hkind]
    exact (hops op hop).count (Or.inr hkind)

/-- Squashing ends after rounds of which all but the last make the operations fewer, at most one
more of them than there are operations. What it returns is in canonical form and stays as it is
when it is squashed again. -/
theorem squashToFixpoint_canonical (hops : ∀ op ∈ ops, op.Made E) :
    let squashed := squashToFixpoint E ops
    (∃ rounds ≤ ops.length, squashed = (squashOnce E)^[rounds + 1] ops ∧
        (∀ i < rounds, ((squashOnce E)^[i + 1] ops).length < ((squashOnce E)^[i] ops).length) ∧
        ((squashOnce E)^[rounds + 1] ops).length = ((squashOnce E)^[rounds] ops).length) ∧
      squashed.length ≤ ops.length ∧ Canonical squashed ∧
      squashOnce E squashed = squashed ∧ squashToFixpoint E squashed = squashed := by
  intro squashed
  have hfused : Fused E squashed := fused_squashToFixpoint E ops
  have hcomplete : ∀ op ∈ squashed, op.IsComplete :=
    isComplete_squashToFixpoint fun op hop => (hops op hop).isComplete
  exact ⟨exists_rounds E ops, length_squashToFixpoint_le E ops, hfused.canonical hcomplete,
    squashOnce_of_fused hfused, squashToFixpoint_of_fused hfused⟩

theorem squashToFixpoint_canonical_records :
    let E := Entity.ofColumns "User" "id" ["id", "name"]
    let named (name : String) := filter E (.column ⟨"name", .eq (.text name)⟩)
    let byName : Comparator Record := .column "name" .ascending
    let ops := [named "A", skip 0, (named "B").withArgument (.count 7), sorted E, sorted E,
      sortedBy E byName, limit Count.greatest, sortedBy E .natural, distinct E, distinct E, limit 9,
      skip 0, (limit 4).withTransform id, custom "SAMPLE", skip 2, skip 3]
    let squashed := squashToFixpoint E ops
    (∀ op ∈ ops, op.Made E) ∧
      ((∃ rounds ≤ ops.length, squashed = (squashOnce E)^[rounds + 1] ops ∧
          (∀ i < rounds, ((squashOnce E)^[i + 1] ops).length < ((squashOnce E)^[i] ops).length) ∧
          ((squashOnce E)^[rounds + 1] ops).length = ((squashOnce E)^[rounds] ops).length) ∧
        squashed.length ≤ ops.length ∧ Canonical squashed ∧
        squashOnce E squashed = squashed ∧ squashToFixpoint E squashed = squashed) := by
  intro E named byName ops squashed
  have hops : ∀ op ∈ ops, op.Made E := by
    simp only [ops, named, List.forall_mem_cons]
    exact ⟨.filter _, .skip 0, (Made.filter _).withArgument _, .sorted, .sorted, .sortedBy byName,
      .limit _, .sortedBy _, .distinct, .distinct, .limit 9, .skip 0, (Made.limit 4).withTransform id,
      .custom _, .skip 2, .skip 3, nofun⟩
  exact ⟨hops, squashToFixpoint_canonical hops⟩

end Operation
end Pushdown
