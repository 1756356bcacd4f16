import Pushdown.Proofs.LazyReplay
import Pushdown.Proofs.Rendering
import Pushdown.Proofs.Terminals

/-!
# Render equivalence

Rendering a pipeline and using its result comes to the same as applying the operations to the rows
of the store, one after the other, and then the terminal operation. The visits on the way are the
ones that happen when the terminal operation pulls from the operations themselves. They differ only
behind row `2 ^ 64 - 1`, where a limit to as many rows stops, and optimization drops such a limit.
-/

namespace Pushdown

open Operation Interpretation

variable {ρ : Type}

namespace Operation

/-- A peek sees rows that reach it while the chain is pulled, and all of them if nothing behind it
stops early. -/
lemma exists_seen {E : Entity ρ} {before after : List (Operation ρ)} {o : Observer}
    (hops : ∀ op ∈ before ++ peek o :: after, op.Standard E)
    (hothers : ∀ op ∈ before ++ after, op ≠ peek o) {rows : List ρ} {chain : Flow ρ}
    (h : replay? (before ++ peek o :: after) (.ofRows rows) = some chain) :
    ∃ seen, lists.run? before rows = some seen ∧ chain.shown o <+: seen ∧
      ((∀ op ∈ after, op.kind ≠ .limit ∧ op.kind ≠ .takeWhile) → chain.shown o = seen) := by
  obtain ⟨hbefore, hpeeked⟩ := List.forall_mem_append.1 hops
  obtain ⟨hothers, hothers'⟩ := List.forall_mem_append.1 hothers
  rw [replay?_append] at h
  obtain ⟨input, hinput, h⟩ := Option.bind_eq_some_iff.1 h
  replace h : replay? after (input.observe o) = some chain := by
    rw [replay?_cons] at h
    exact h
  have hrun : lists.run? before rows = some input.rows := by
    have hlists := run?_lists (fun op hop => (hbefore op hop).rowWise) (.ofRows rows)
    rwa [Flow.rows_ofRows, hinput] at hlists
  have hfresh : ∀ v ∈ input.visits, v.observer ≠ o :=
    spares_replay? (fun op hop => (hbefore op hop).spares (hothers op hop)) (by simp) hinput
  have hseen : (input.observe o).shown o = input.rows := Pulled.visits_observe_self hfresh
  obtain ⟨stages, rfl⟩ := Stage.exists_stages E (List.forall_mem_cons.1 hpeeked).2
  have hpeek : ∀ s ∈ stages, s ≠ .peek o := by
    rintro s hs rfl
    exact hothers' _ (List.mem_map_of_mem hs) rfl
  refine ⟨input.rows, hrun, ?_, fun hkinds => ?_⟩
  · rw [← hseen]
    exact Stage.shown_replay_isPrefix E hpeek h
  · rw [← hseen]
    refine Stage.shown_replay E hpeek h fun s hs => ?_
    obtain ⟨hlimit, htakeWhile⟩ := hkinds _ (List.mem_map_of_mem hs)
    cases s with
    | limit n => exact absurd rfl hlimit
    | takeWhile p => exact absurd rfl htakeWhile
    | _ => rfl

end Operation

namespace Renderer

variable {s : Store ρ} {r : Renderer ρ} {configuration : StreamConfiguration} {t : Terminal ρ}
  {pipeline : Pipeline ρ}

/-- The answer is the one that the terminal operation gives over the rows that the operations leave,
and where it visits rows, it visits these. -/
theorem render_answers (hr : r.IsStandard s.entity)
    (hprimary : s.entity.hasColumn s.entity.primaryKey = true) (hhealthy : s.failure? = none)
    (hknown : configuration.KnownTo s.entity) (hready : pipeline.state = .ready)
    (ht : pipeline.terminal? = some t)
    (hops : ∀ op ∈ pipeline.operations,
      op.Standard s.entity ∨ op.IsCustom ∧ op.RowWise ∧ op.transform.isSome)
    (hfits : lists.FitsThroughout pipeline.operations s.rows) :
    ∃ rows result, lists.run? pipeline.operations s.rows = some rows ∧
      (r.render s pipeline configuration).result = .ok result ∧
      (result.execute s.entity).answer.map TerminalValue.drained =
        .ok (t.evaluate s.entity (.ofRows rows)) ∧
      ∀ o, t = .forEach o → ∃ flow : Flow ρ, flow.rows = rows ∧
        (result.execute s.entity).visits = (flow.observe o).visits ∧
        ((∀ op ∈ pipeline.operations, op.Spares o) →
          ((result.execute s.entity).visits.filter fun v => v.observer = o).map Visit.row =
            rows) := by
  have hregular : ∀ op ∈ pipeline.operations, op.Regular s.entity :=
    fun op hop => (hops op hop).imp_right And.left
  have hrowWise : ∀ op ∈ pipeline.operations, op.RowWise :=
    fun op hop => (hops op hop).elim Standard.rowWise fun h => h.2.1
  have htransform : ∀ op ∈ pipeline.operations, op.transform.isSome :=
    fun op hop => (hops op hop).elim Standard.transform_isSome fun h => h.2.2
  have hmem := mem_optimize r.settings.optimizer t hregular
  have hregular' := regular_optimize r.settings.optimizer t hregular
  obtain ⟨chain, hchain⟩ := replay?_isSome htransform (.ofRows s.rows)
  obtain ⟨short, hshort, hevaluate, -⟩ := added_replays r.settings.optimizer t s.entity chain
  have hrows : lists.run? pipeline.operations s.rows = some chain.rows := by
    have hrun := run?_lists hrowWise (.ofRows s.rows)
    rwa [Flow.rows_ofRows, hchain] at hrun
  have hoptimized := rows_replay_optimize r.settings.optimizer t hregular hrowWise hfits
  rw [replay?_append, hchain, Option.bind_some, hshort] at hoptimized
  obtain ⟨flow, hflow, hflowRows⟩ := Option.map_eq_some_iff.1 hoptimized
  obtain ⟨result, hresult, hdelivers⟩ :=
    render_delivers hr hprimary hhealthy hknown hfits.fits hready ht hregular' hflow
  obtain ⟨hanswer, hvisits⟩ := hdelivers.execute s.entity
  refine ⟨chain.rows, result, hrows, hresult, ?_, ?_⟩
  · have hdrained : (t.evaluate s.entity flow).drained =
        t.evaluate s.entity (.ofRows chain.rows) :=
      calc (t.evaluate s.entity flow).drained = (t.evaluate s.entity short).drained :=
            t.drained_evaluate_congr hflowRows
        _ = (t.evaluate s.entity chain).drained := by rw [hevaluate]
        _ = t.evaluate s.entity (.ofRows chain.rows) := t.drained_evaluate chain
    rw [hanswer, ← hdrained]
    rfl
  · rintro o rfl
    rw [added_eq_nil r.settings.optimizer rfl] at hshort
    obtain rfl : chain = short := Option.some.inj hshort
    refine ⟨flow, hflowRows, hvisits, fun hspares => ?_⟩
    have hspares' : ∀ op ∈ optimize s.entity r.settings.optimizer (some (.forEach o))
        pipeline.operations, op.Spares o :=
      fun op hop => (hmem op hop).elim (hspares op) fun h => h.spares o
    have hfresh := spares_replay? hspares' (by simp) hflow
    rw [hvisits, ← hflowRows]
    exact Pulled.visits_observe_self hfresh

theorem render_answers_records :
    let E := Entity.ofColumns "User" "id" ["id", "name"]
    let row (n : Int64) (name : String) : Record := ⟨[("id", .int n), ("name", .text name)]⟩
    let s := Store.new E [row 3 "A", row 1 "B", row 2 "C", row 3 "A", row 4 "B", row 5 "D"]
    let r := Renderer.new E
    let configuration := (StreamConfiguration.standard.joining "name").selecting ["id"]
    let reversed := (custom "REVERSED").withTransform (.rearrange List.reverse)
    let ops := [filter E (.column ⟨"name", .ne (.text "C")⟩), sortedBy E (.column "name" .descending),
      distinct E, reversed, peek ⟨1, "seen"⟩, skip 1, limit 2]
    let t : Terminal Record := .forEach ⟨2, "told"⟩
    let pipeline := { Pipeline.ofOperations E ops with terminal? := some t }
    r.IsStandard s.entity ∧ s.entity.hasColumn s.entity.primaryKey = true ∧ s.failure? = none ∧
      configuration.KnownTo s.entity ∧ pipeline.state = .ready ∧
      pipeline.terminal? = some t ∧
      (∀ op ∈ pipeline.operations,
        op.Standard s.entity ∨ op.IsCustom ∧ op.RowWise ∧ op.transform.isSome) ∧
      lists.FitsThroughout pipeline.operations s.rows ∧
      ∃ rows result, lists.run? pipeline.operations s.rows = some rows ∧
        (r.render s pipeline configuration).result = .ok result ∧
        (result.execute s.entity).answer.map TerminalValue.drained =
          .ok (t.evaluate s.entity (.ofRows rows)) ∧
        ∀ o, t = .forEach o → ∃ flow : Flow Record, flow.rows = rows ∧
          (result.execute s.entity).visits = (flow.observe o).visits ∧
          ((∀ op ∈ pipeline.operations, op.Spares o) →
            ((result.execute s.entity).visits.filter fun v => v.observer = o).map Visit.row =
              rows) := by
  intro E row s r configuration reversed ops t pipeline
  have hr : r.IsStandard s.entity := ⟨rfl, rfl, rfl⟩
  have hknown : configuration.KnownTo s.entity := by
    refine ⟨?_, ?_⟩
    · exact List.forall_mem_singleton.2 (by decide)
    · rintro _ ⟨⟩
      exact List.forall_mem_singleton.2 (by decide)
  have hcustom : reversed.IsCustom ∧ reversed.RowWise ∧ reversed.transform.isSome :=
    ⟨⟨_, rfl⟩, rowWise_withTransform_rearrange _ List.reverse, rfl⟩
  have hshrinks : reversed.Shrinks :=
    shrinks_withTransform_rearrange _ fun _ => Nat.le_of_eq List.length_reverse
  have hkinds : ∀ op ∈ pipeline.operations,
      (op.Standard E ∧ op.kind ≠ .flatMap) ∨ op = reversed := by
    simp only [pipeline, Pipeline.ofOperations, ops, List.forall_mem_cons]
    exact ⟨Or.inl ⟨.selects (.filter _), nofun⟩, Or.inl ⟨.selects (.sortedBy trivial), nofun⟩,
      Or.inl ⟨.selects .distinct, nofun⟩, Or.inr trivial, Or.inl ⟨.peek _, nofun⟩,
      Or.inl ⟨.selects (.skip _), nofun⟩, Or.inl ⟨.selects (.limit _), nofun⟩, nofun⟩
  have hops : ∀ op ∈ pipeline.operations,
      op.Standard s.entity ∨ op.IsCustom ∧ op.RowWise ∧ op.transform.isSome := by
    intro op hop
    rcases hkinds op hop with h | rfl
    · exact Or.inl h.1
    · exact Or.inr hcustom
  have hfits : lists.FitsThroughout pipeline.operations s.rows := by
    refine lists_fitsThroughout (fun op hop => ?_) (by decide)
    rcases hkinds op hop with h | rfl
    · exact h.1.shrinks h.2
    · exact hshrinks
  exact ⟨hr, by decide, rfl, hknown, rfl, rfl, hops, hfits,
    render_answers hr (by decide) rfl hknown rfl rfl hops hfits⟩

/-- The visits while a result is used are the ones that the terminal operation causes over the
operations themselves, also where it pulls but a few rows. A render leaves all of them for later: the
rows that reach a peek are seen while the operations are pulled. Where `2 ^ 64 - 1` rows come, nothing
may happen behind them (`Flow.bounded_iff`): a limit to that many rows, which optimization drops, would
have kept it from happening. -/
theorem render_visits (hr : r.IsStandard s.entity)
    (hprimary : s.entity.hasColumn s.entity.primaryKey = true) (hhealthy : s.failure? = none)
    (hready : pipeline.state = .ready) (ht : pipeline.terminal? = some t)
    (hops : ∀ op ∈ pipeline.operations, op.Standard s.entity)
    (hfits : flows.FitsThroughout pipeline.operations (.ofRows s.rows)) :
    ∃ chain result, replay? pipeline.operations (.ofRows s.rows) = some chain ∧
      (r.render s pipeline .standard).result = .ok result ∧
      (result.execute s.entity).visits = (t.pulled s.entity chain).visits ∧
      (t = .iterator → ∀ k, ∃ flow, (result.execute s.entity).answer = .ok (.iterator flow) ∧
        (flow.take k).visits = (chain.take k).visits) ∧
      ((∃ flow, result.sequence = .rows flow ∧
          replay? (added s.entity r.settings.optimizer t) chain = some flow) ∨
        t = .count ∧ result.sequence = .counted chain.rows.length ∧ chain.visits = []) ∧
      ∀ before o after, pipeline.operations = before ++ peek o :: after →
        (∀ op ∈ before ++ after, op ≠ peek o) →
        ∃ seen, lists.run? before s.rows = some seen ∧ chain.shown o <+: seen ∧
          ((∀ op ∈ after, op.kind ≠ .limit ∧ op.kind ≠ .takeWhile) → chain.shown o = seen) := by
  have hregular : ∀ op ∈ pipeline.operations, op.Regular s.entity :=
    fun op hop => Or.inl (hops op hop)
  have hregular' := regular_optimize r.settings.optimizer t hregular
  have hknown : StreamConfiguration.standard.KnownTo s.entity := ⟨nofun, nofun⟩
  have hrows : s.rows.length < UInt64.size := by
    have hbounded : (Flow.ofRows s.rows).Bounded := hfits.fits
    have hlt := hbounded.1
    rwa [Flow.rows_ofRows] at hlt
  obtain ⟨chain, hchain⟩ := replay?_isSome (fun op hop => (hops op hop).transform_isSome)
    (.ofRows s.rows)
  obtain ⟨short, hshort, hevaluate, hpulled⟩ :=
    added_replays r.settings.optimizer t s.entity chain
  have hoptimized := replay_optimize r.settings.optimizer t hregular hfits
  rw [replay?_append, hchain, Option.bind_some, hshort] at hoptimized
  obtain ⟨result, hresult, hdelivers⟩ :=
    render_delivers hr hprimary hhealthy hknown hrows hready ht hregular' hoptimized
  obtain ⟨hanswer, hvisits⟩ := hdelivers.execute s.entity
  refine ⟨chain, result, hchain, hresult, hvisits.trans hpulled, ?_, ?_, ?_⟩
  · rintro rfl k
    refine ⟨chain, ?_, rfl⟩
    rw [hanswer, hevaluate]
    rfl
  · rcases hdelivers.sequence_eq with hsequence | ⟨rfl, hquiet, hsequence⟩
    · exact Or.inl ⟨short, hsequence, hshort⟩
    · rw [added_eq_nil r.settings.optimizer rfl] at hshort
      obtain rfl : chain = short := Option.some.inj hshort
      exact Or.inr ⟨rfl, hsequence, hquiet⟩
  · intro before o after hsplit hothers
    rw [hsplit] at hops hchain
    exact exists_seen hops hothers hchain

theorem render_visits_records :
    let E := Entity.ofColumns "User" "id" ["id", "name"]
    let row (n : Int64) (name : String) : Record := ⟨[("id", .int n), ("name", .text name)]⟩
    let s := Store.new E [row 3 "A", row 1 "B", row 2 "C", row 3 "A", row 4 "B", row 5 "D"]
    let r := Renderer.new E
    let before := [filter E (.column ⟨"id", .gt (.int 1)⟩)]
    let after := [limit Count.greatest, skip 1, skip 0, skip 1, peek ⟨2, "after"⟩]
    let ops := before ++ peek ⟨1, "before"⟩ :: after
    let t : Terminal Record := .anyMatch (.column ⟨"name", .eq (.text "A")⟩)
    let pipeline := { Pipeline.ofOperations E ops with terminal? := some t }
    r.IsStandard s.entity ∧ s.entity.hasColumn s.entity.primaryKey = true ∧ s.failure? = none ∧
      pipeline.state = .ready ∧ pipeline.terminal? = some t ∧
      (∀ op ∈ pipeline.operations, op.Standard s.entity) ∧
      flows.FitsThroughout pipeline.operations (.ofRows s.rows) ∧
      ∃ chain result seen, replay? pipeline.operations (.ofRows s.rows) = some chain ∧
        (r.render s pipeline .standard).result = .ok result ∧
        (result.execute s.entity).visits = (t.pulled s.entity chain).visits ∧
        (t = .iterator → ∀ k, ∃ flow, (result.execute s.entity).answer = .ok (.iterator flow) ∧
          (flow.take k).visits = (chain.take k).visits) ∧
        ((∃ flow, result.sequence = .rows flow ∧
            replay? (added s.entity r.settings.optimizer t) chain = some flow) ∨
          t = .count ∧ result.sequence = .counted chain.rows.length ∧ chain.visits = []) ∧
        lists.run? before s.rows = some seen ∧ chain.shown ⟨1, "before"⟩ <+: seen := by
  intro E row s r before after ops t pipeline
  have hr : r.IsStandard s.entity := ⟨rfl, rfl, rfl⟩
  have hkinds : ∀ op ∈ pipeline.operations, op.Standard s.entity ∧ op.kind ≠ .flatMap := by
    simp only [pipeline, Pipeline.ofOperations, ops, before, after, List.singleton_append,
      List.forall_mem_cons]
    exact ⟨⟨.selects (.filter _), nofun⟩, ⟨.peek _, nofun⟩, ⟨.selects (.limit _), nofun⟩,
      ⟨.selects (.skip _), nofun⟩, ⟨.selects (.skip _), nofun⟩, ⟨.selects (.skip _), nofun⟩,
      ⟨.peek _, nofun⟩, nofun⟩
  have hops : ∀ op ∈ pipeline.operations, op.Standard s.entity :=
    fun op hop => (hkinds op hop).1
  have hrows : (Flow.ofRows s.rows).rows.length + 1 < UInt64.size := by
    rw [Flow.rows_ofRows]
    decide
  have hfits : flows.FitsThroughout pipeline.operations (.ofRows s.rows) :=
    flows_fitsThroughout (fun op hop => (hkinds op hop).1.shrinks (hkinds op hop).2) hrows
  have hothers : ∀ op ∈ before ++ after, op ≠ peek ⟨1, "before"⟩ := by
    simp [before, after, filter, limit, skip, peek]
  obtain ⟨chain, result, hchain, hresult, hvisits, hiterator, hsequence, hpeeks⟩ :=
    render_visits hr (by decide) rfl rfl rfl hops hfits
  obtain ⟨seen, hseen, hprefix, -⟩ := hpeeks before _ after rfl hothers
  exact ⟨hr, by decide, rfl, rfl, rfl, hops, hfits, chain, result, seen, hchain, hresult, hvisits,
    hiterator, hsequence, hseen, hprefix⟩

section GreatestLimit

/-- Hands out each row `n` times. -/
def copies (n : Nat) : Closure (ρ → List ρ) := ⟨n, List.replicate n⟩

lemma length_flatMap_copies (n : Nat) (rows : List ρ) :
    (rows.flatMap (copies n).fn).length = rows.length * n := by
  simp [copies, List.length_flatMap]

variable (E : Entity ρ) (o : Observer) (f : Closure (ρ → List ρ)) (k m n : Nat)

/-- Stages that make `k * m * n` rows of each row that `f` hands out. -/
def expansion : List (Stage ρ) :=
  [.flatMap f, .flatMap (copies k), .flatMap (copies m), .flatMap (copies n)]

lemma length_eagerly_expansion (rows : List ρ) :
    (Stage.eagerly E (expansion f k m n) rows).length =
      (rows.flatMap f.fn).length * k * m * n := by
  change ((((rows.flatMap f.fn).flatMap (copies k).fn).flatMap (copies m).fn).flatMap
    (copies n).fn).length = _
  rw [length_flatMap_copies, length_flatMap_copies, length_flatMap_copies]

/-- Optimization drops the limit that lets as many rows pass as there can be. -/
lemma optimize_limit_greatest :
    optimize E .standard (some .collect)
        (peek o :: Stage.operations E (expansion f k m n) ++ [limit Count.greatest]) =
      peek o :: Stage.operations E (expansion f k m n) := by
  let ops := peek o :: Stage.operations E (expansion f k m n)
  have honce : squashOnce E (ops ++ [limit Count.greatest]) = ops := rfl
  have hagain : squashOnce E ops = ops := rfl
  change squashToFixpoint E (ops ++ [limit Count.greatest]) = ops
  rw [squashToFixpoint, honce, squashToFixpoint, hagain]
  rfl

variable {f k m n}

lemma lists_fitsThroughout_expansion {rows : List ρ} (hrows : rows.length < UInt64.size)
    (hf : (rows.flatMap f.fn).length < UInt64.size)
    (hk : (rows.flatMap f.fn).length * k < UInt64.size)
    (hm : (rows.flatMap f.fn).length * k * m < UInt64.size)
    (hn : (rows.flatMap f.fn).length * k * m * n < UInt64.size) (c : UInt64) :
    lists.FitsThroughout
      (peek o :: Stage.operations E (expansion f k m n) ++ [limit c]) rows := by
  change lists.FitsThroughout
    (Stage.operations E (.peek o :: expansion f k m n ++ [.limit c])) rows
  simp only [expansion, List.cons_append, List.nil_append, Stage.lists_fitsThroughout_cons,
    Stage.eager, length_flatMap_copies]
  refine ⟨hrows, hrows, hf, hk, hm, hn, Nat.lt_of_le_of_lt (List.length_take_le' _ _) ?_⟩
  rwa [length_flatMap_copies, length_flatMap_copies, length_flatMap_copies]

/-- Whoever pulls only the rows that the first row of the source makes never sees the second. -/
lemma visits_take_ne {row row' : ρ} (hf : f.fn row = [row]) (hkmn : k * m * n ≠ 0) {flow : Flow ρ}
    (h : replay? (Stage.operations E (expansion f k m n))
      ((Flow.ofRows [row, row']).observe o) = some flow) :
    (flow.take (k * m * n)).visits ≠ flow.visits := by
  have hlength : (Stage.eagerly E (expansion f k m n) [row]).length = k * m * n := by
    rw [length_eagerly_expansion, List.flatMap_singleton, hf, List.length_singleton, Nat.one_mul]
  have hfirst : (flow.take (k * m * n)).shown o = [row] := by
    rw [← hlength]
    refine Stage.shown_take_of_head E (by simp [expansion]) (by simp [expansion, Stage.sorts]) rfl
      (fun hnil => hkmn ?_) h
    rw [← hlength, hnil, List.length_nil]
  have hboth : flow.shown o = [row, row'] := by
    rw [Stage.shown_replay E (by simp [expansion]) h (by simp [expansion, Stage.stops])]
    exact Flow.shown_take_observe_ofRows (o := o) 3 [row, row']
  intro hsame
  have hshown := Flow.shown_congr (o := o) hsame
  rw [hfirst, hboth] at hshown
  cases hshown

/-- Where the first row of the store makes all rows that a limit to `2 ^ 64 - 1` lets pass, the second
is never pulled; once optimization has dropped the limit, it is. So it does not keep the visits the
same that fewer than `2 ^ 64` rows come at each stage. The three numbers of copies multiply to
`2 ^ 64 - 1`. -/
theorem render_visits_behind_greatest_limit :
    let E := Entity.ofColumns "Person" "id" ["id", "name"]
    let o : Observer := ⟨0, "seen"⟩
    let s := Store.new E [⟨[("id", .int 1), ("name", .text "a")]⟩, ⟨[("id", .int 2)]⟩]
    let r := Renderer.new E
    let named : Closure (Record → List Record) :=
      ⟨1, fun row => if (E.read row "name").isNull then [] else [row]⟩
    let ops := [peek o, flatMap named, flatMap (copies 6700417), flatMap (copies 1114129),
      flatMap (copies 2471055), limit Count.greatest]
    let pipeline := { Pipeline.ofOperations E ops with terminal? := some .collect }
    r.IsStandard s.entity ∧ s.entity.hasColumn s.entity.primaryKey = true ∧ s.failure? = none ∧
      pipeline.state = .ready ∧ pipeline.terminal? = some .collect ∧
      (∀ op ∈ pipeline.operations, op.Standard s.entity) ∧
      lists.FitsThroughout pipeline.operations s.rows ∧
      ∃ chain result, replay? pipeline.operations (.ofRows s.rows) = some chain ∧
        (r.render s pipeline .standard).result = .ok result ∧
        (result.execute s.entity).visits ≠ (Terminal.collect.pulled s.entity chain).visits := by
  intro E o s r named ops pipeline
  let stages := expansion named 6700417 1114129 2471055
  have hr : r.IsStandard s.entity := ⟨rfl, rfl, rfl⟩
  have hops : ∀ op ∈ pipeline.operations, op.Standard s.entity := by
    simp only [pipeline, Pipeline.ofOperations, ops, List.forall_mem_cons]
    exact ⟨.peek _, .flatMap _, .flatMap _, .flatMap _, .flatMap _, .selects (.limit _), nofun⟩
  have hfits : lists.FitsThroughout pipeline.operations s.rows :=
    lists_fitsThroughout_expansion E o (by decide) (by decide) (by decide) (by decide)
      (by decide) _
  have hoptimized := optimize_limit_greatest E o named 6700417 1114129 2471055
  obtain ⟨flow, hflow, -⟩ := Stage.exists_replay E stages ((Flow.ofRows s.rows).observe o)
  have hregular : ∀ op ∈ optimize s.entity r.settings.optimizer (some .collect)
      pipeline.operations, op.Regular s.entity :=
    regular_optimize _ _ fun op hop => Or.inl (hops op hop)
  have hknown : StreamConfiguration.standard.KnownTo s.entity := ⟨nofun, nofun⟩
  obtain ⟨result, hresult, hdelivers⟩ := render_delivers hr (by decide) rfl hknown (by decide) rfl
    rfl hregular ((congrArg (replay? · _) hoptimized).trans hflow)
  refine ⟨hr, by decide, rfl, rfl, rfl, hops, hfits, flow.take Count.greatest.toNat, result, ?_,
    hresult, ?_⟩
  · change replay? (Stage.operations E stages ++ [limit Count.greatest])
      ((Flow.ofRows s.rows).observe o) = _
    rw [replay?_append, hflow]
    rfl
  · rw [(hdelivers.execute s.entity).2]
    exact (visits_take_ne E o rfl (by decide) hflow).symm

end GreatestLimit

end Renderer
end Pushdown
