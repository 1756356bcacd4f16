import Pushdown.Proofs.Machines

/-!
# Lazy replay

Replay hands out the rows that list operations make of the whole source, one behind the other. But
a consumer who pulls `k` of them has pulled no more than the fewest rows of the source of which `k`
come out, unless there is a sort on the way, and no more than a limit takes from what stands before
it. A sort pulls its input when it is pulled itself, so that what is to be seen there is seen then.
-/

namespace Pushdown

/-- What a standard operation is told. -/
inductive Stage (ρ : Type)
  | filter (p : Predicate ρ)
  | map (f : Closure (ρ → ρ))
  | flatMap (f : Closure (ρ → List ρ))
  | peek (o : Observer)
  | distinct
  | sorted
  | sortedBy (c : Comparator ρ)
  | limit (n : UInt64)
  | skip (n : UInt64)
  | takeWhile (p : Predicate ρ)
  | dropWhile (p : Predicate ρ)

namespace Stage

variable {ρ : Type} (E : Entity ρ)

def operation : Stage ρ → Operation ρ
  | filter p => .filter E p
  | map f => .map f
  | flatMap f => .flatMap f
  | peek o => .peek o
  | distinct => .distinct E
  | sorted => .sorted E
  | sortedBy c => .sortedBy E c
  | limit n => .limit n
  | skip n => .skip n
  | takeWhile p => .takeWhile E p
  | dropWhile p => .dropWhile E p

/-- What the operation makes of a list of rows. -/
def eager : Stage ρ → List ρ → List ρ
  | filter p, rows => rows.filter fun row => p.test E row
  | map f, rows => rows.map f.fn
  | flatMap f, rows => rows.flatMap f.fn
  | peek _, rows => rows
  | distinct, rows => E.distinctRows rows
  | sorted, rows => Comparator.natural.sort E rows
  | sortedBy c, rows => c.sort E rows
  | limit n, rows => rows.take n.toNat
  | skip n, rows => rows.drop n.toNat
  | takeWhile p, rows => rows.takeWhile fun row => p.test E row
  | dropWhile p, rows => rows.dropWhile fun row => p.test E row

def operations (stages : List (Stage ρ)) : List (Operation ρ) := stages.map (operation E)

/-- What the operations make of a list of rows, one behind the other. -/
def eagerly (stages : List (Stage ρ)) (rows : List ρ) : List ρ :=
  stages.foldl (fun rows s => s.eager E rows) rows

def sorts : Stage ρ → Bool
  | sorted | sortedBy _ => true
  | _ => false

/-- Can the stage end before what it reads ends? -/
def stops : Stage ρ → Bool
  | limit _ | takeWhile _ => true
  | _ => false

/-- A stage has a transform, which does to flows what the stage does to lists. -/
lemma exists_transform (s : Stage ρ) :
    ∃ t, (s.operation E).transform = some t ∧ ∀ flow, (t flow).rows = s.eager E flow.rows := by
  cases s with
  | filter p => exact ⟨_, rfl, Flow.rows_filter _⟩
  | map f => exact ⟨_, rfl, Flow.rows_map f.fn⟩
  | flatMap f => exact ⟨_, rfl, Flow.rows_flatMap f.fn⟩
  | peek o => exact ⟨_, rfl, Flow.rows_observe o⟩
  | distinct => exact ⟨_, rfl, Flow.rows_distinct E.rowKey⟩
  | sorted => exact ⟨_, rfl, Flow.rows_rearrange _⟩
  | sortedBy c => exact ⟨_, rfl, Flow.rows_rearrange _⟩
  | limit n => exact ⟨_, rfl, Flow.rows_take n.toNat⟩
  | skip n => exact ⟨_, rfl, Flow.rows_drop n.toNat⟩
  | takeWhile p => exact ⟨_, rfl, Flow.rows_takeWhile _⟩
  | dropWhile p => exact ⟨_, rfl, Flow.rows_dropWhile _⟩

section Shown

variable {o : Observer} {s : Stage ρ} (hpeek : s ≠ peek o)

include hpeek

/-- A stage that does not sort is carried out by a machine, and only a limit to no rows has it stop
before the first row. -/
lemma exists_machine (hsort : s.sorts = false) :
    ∃ (σ : Type) (M : Machine ρ σ) (t : Transform ρ), (s.operation E).transform = some t ∧
      M.Performs o t ∧ (s ≠ limit 0 → M.start ≠ none) := by
  cases s with
  | filter p => exact ⟨_, _, _, rfl, Machine.performs_filter _, fun _ => Option.some_ne_none _⟩
  | map f => exact ⟨_, _, _, rfl, Machine.performs_map f.fn, fun _ => Option.some_ne_none _⟩
  | flatMap f => exact ⟨_, _, _, rfl, Machine.performs_flatMap f.fn, fun _ => Option.some_ne_none _⟩
  | peek o' =>
    have hne : o' ≠ o := fun hsame => hpeek (congrArg peek hsame)
    exact ⟨_, _, _, rfl, Machine.performs_observe hne, fun _ => Option.some_ne_none _⟩
  | distinct =>
    exact ⟨_, _, _, rfl, Machine.performs_distinct E.rowKey, fun _ => Option.some_ne_none _⟩
  | limit n =>
    refine ⟨_, _, _, rfl, Machine.performs_take n.toNat, fun hne => ?_⟩
    have hsome : n.toNat ≠ 0 := fun hzero => hne (congrArg limit (UInt64.toNat_inj.1 hzero))
    obtain ⟨m, hm⟩ := Nat.exists_eq_succ_of_ne_zero hsome
    rw [hm]
    exact Option.some_ne_none m
  | skip n => exact ⟨_, _, _, rfl, Machine.performs_drop n.toNat, fun _ => Option.some_ne_none _⟩
  | takeWhile p => exact ⟨_, _, _, rfl, Machine.performs_takeWhile _, fun _ => Option.some_ne_none _⟩
  | dropWhile p => exact ⟨_, _, _, rfl, Machine.performs_dropWhile _, fun _ => Option.some_ne_none _⟩
  | sorted => cases hsort
  | sortedBy c => cases hsort

/-- A stage that does not sort pulls no more rows than it takes. -/
lemma pullsFewest (hsort : s.sorts = false) :
    ∃ t, (s.operation E).transform = some t ∧ PullsFewest o (s.eager E) t := by
  obtain ⟨σ, M, t, ht, hM, -⟩ := exists_machine E hpeek hsort
  obtain ⟨t', ht', hrows⟩ := s.exists_transform E
  obtain rfl := Option.some.inj (ht.symm.trans ht')
  exact ⟨t, ht, hM.pullsFewest hrows⟩

variable {t : Transform ρ} (ht : (s.operation E).transform = some t)

include ht

/-- A stage that reads to the end leaves an observer all there is to see before it. -/
lemma shown_eq (hstops : s.stops = false) (flow : Flow ρ) : (t flow).shown o = flow.shown o := by
  cases s with
  | limit n => cases hstops
  | takeWhile p => cases hstops
  | peek o' =>
    cases ht
    exact Flow.shown_observe (fun hsame => hpeek (congrArg peek hsame)) flow
  | _ =>
    cases ht
    exact Flow.shown_congr (by simp)

/-- An observer sees no more of a flow behind a stage than before it. -/
lemma shown_isPrefix (flow : Flow ρ) : (t flow).shown o <+: flow.shown o := by
  cases hsort : s.sorts with
  | false =>
    obtain ⟨σ, M, t', ht', hM, -⟩ := exists_machine E hpeek hsort
    obtain rfl := Option.some.inj (ht'.symm.trans ht)
    exact hM.shown_isPrefix flow
  | true =>
    have hstops : s.stops = false := by cases s <;> first | rfl | cases hsort
    exact ⟨[], (List.append_nil _).trans (shown_eq E hpeek ht hstops flow)⟩

/-- What is to be seen before the first row still is behind a stage that does not stop before it. A
sort brings it about. -/
lemma upfront (hlimit : s ≠ limit 0) {flow : Flow ρ}
    (hflow : s.sorts = false → flow.Upfront o) :
    (t flow).Upfront o ∧ (t flow).shown o = flow.shown o := by
  cases hsort : s.sorts with
  | false =>
    obtain ⟨σ, M, t', ht', hM, hstart⟩ := exists_machine E hpeek hsort
    obtain rfl := Option.some.inj (ht'.symm.trans ht)
    exact hM.upfront (hstart hlimit) (hflow hsort)
  | true =>
    cases s with
    | sorted =>
      cases ht
      exact ⟨Flow.upfront_rearrange _ flow, Flow.shown_congr (Flow.visits_rearrange _ flow)⟩
    | sortedBy c =>
      cases ht
      exact ⟨Flow.upfront_rearrange _ flow, Flow.shown_congr (Flow.visits_rearrange _ flow)⟩
    | _ => cases hsort

end Shown

/-- Replay hands out what the operations make of the list of all rows. -/
lemma exists_replay (stages : List (Stage ρ)) (source : Flow ρ) :
    ∃ flow, Operation.replay? (operations E stages) source = some flow ∧
      flow.rows = eagerly E stages source.rows := by
  induction stages generalizing source with
  | nil => exact ⟨source, rfl, rfl⟩
  | cons s stages ih =>
    obtain ⟨t, ht, hrows⟩ := s.exists_transform E
    obtain ⟨flow, hreplay, heager⟩ := ih (t source)
    refine ⟨flow, ?_, ?_⟩
    · rw [operations, List.map_cons, Operation.replay?_cons, ht]
      exact hreplay
    · rw [heager, hrows]
      rfl

/-- Replay without sorts pulls no more rows than it takes. -/
lemma exists_pullsFewest {o : Observer} {stages : List (Stage ρ)} (hpeek : ∀ s ∈ stages, s ≠ peek o)
    (hsorts : ∀ s ∈ stages, s.sorts = false) :
    ∃ t, (∀ source, Operation.replay? (operations E stages) source = some (t source)) ∧
      PullsFewest o (eagerly E stages) t := by
  induction stages with
  | nil => exact ⟨fun source => source, fun _ => rfl, .id⟩
  | cons s stages ih =>
    obtain ⟨hsort, hsorts⟩ := List.forall_mem_cons.1 hsorts
    obtain ⟨hs, hstages⟩ := List.forall_mem_cons.1 hpeek
    obtain ⟨t, ht, hpulls⟩ := s.pullsFewest E hs hsort
    obtain ⟨u, hreplay, hlater⟩ := ih hstages hsorts
    refine ⟨fun source => u (t source), fun source => ?_, hpulls.comp hlater⟩
    rw [operations, List.map_cons, Operation.replay?_cons, ht]
    exact hreplay (t source)

/-- A consumer of the rows that are made of the first row of the source pulls no other row. -/
lemma shown_take_of_head {o : Observer} {stages : List (Stage ρ)} (hpeek : ∀ s ∈ stages, s ≠ peek o)
    (hsorts : ∀ s ∈ stages, s.sorts = false) (hnone : eagerly E stages [] = []) {row : ρ}
    (hsome : eagerly E stages [row] ≠ []) {rows : List ρ} {flow : Flow ρ}
    (h : Operation.replay? (operations E stages) ((Flow.ofRows (row :: rows)).observe o) =
      some flow) :
    (flow.take (eagerly E stages [row]).length).shown o = [row] := by
  obtain ⟨t, ht, hpulls⟩ := exists_pullsFewest E hpeek hsorts
  obtain rfl := Option.some.inj ((ht _).symm.trans h)
  have hwatched : ((Flow.ofRows (row :: rows)).observe o).rows = row :: rows := by simp
  have hle : (eagerly E stages [row]).length ≤ (eagerly E stages (row :: rows)).length :=
    (hpulls.incremental [row] (row :: rows) ⟨rows, rfl⟩).length_le
  obtain ⟨n, hn, hshown⟩ := hpulls.shown _ _ (hwatched.symm ▸ hle)
  rw [hshown, Flow.shown_take_observe_ofRows]
  rw [hwatched] at hn
  have hpos : 0 < (eagerly E stages [row]).length := List.length_pos_iff.2 hsome
  obtain rfl : n = 1 := by
    refine Nat.le_antisymm (Nat.le_of_not_lt fun hmore => ?_) (Nat.one_le_iff_ne_zero.2 ?_)
    · exact Nat.lt_irrefl _ (hn.fewest 1 hmore)
    · rintro rfl
      have henough := hn.enough
      rw [List.take_zero, hnone] at henough
      exact absurd hpos (Nat.not_lt.2 henough)
  rfl

/-- What holds between the flows before and behind each stage holds across all of them, if it adds
up. -/
lemma replay_induction {R : Flow ρ → Flow ρ → Prop} (hrefl : ∀ flow, R flow flow)
    (htrans : ∀ {a b c}, R a b → R b c → R a c) {stages : List (Stage ρ)}
    (hstages : ∀ s ∈ stages, ∀ t, (s.operation E).transform = some t → ∀ flow, R flow (t flow))
    {source flow : Flow ρ} (h : Operation.replay? (operations E stages) source = some flow) :
    R source flow := by
  induction stages generalizing source with
  | nil =>
    obtain rfl := Option.some.inj h
    exact hrefl source
  | cons s stages ih =>
    obtain ⟨hs, hstages⟩ := List.forall_mem_cons.1 hstages
    rw [operations, List.map_cons, Operation.replay?_cons] at h
    obtain ⟨t, ht, hreplay⟩ := Option.bind_eq_some_iff.1 h
    exact htrans (hs t ht source) (ih hstages hreplay)

section Replay

variable {o : Observer} {stages : List (Stage ρ)} (hpeek : ∀ s ∈ stages, s ≠ peek o)
  {source flow : Flow ρ} (h : Operation.replay? (operations E stages) source = some flow)

include hpeek h

/-- An observer sees no more of a flow behind the stages than before them. -/
lemma shown_replay_isPrefix : flow.shown o <+: source.shown o :=
  replay_induction E (R := fun a b => b.shown o <+: a.shown o) (fun _ => List.prefix_rfl)
    (fun hab hbc => hbc.trans hab) (fun s hs _ ht => s.shown_isPrefix E (hpeek s hs) ht) h

lemma shown_replay (hstops : ∀ s ∈ stages, s.stops = false) : flow.shown o = source.shown o :=
  replay_induction E (R := fun a b => b.shown o = a.shown o) (fun _ => rfl)
    (fun hab hbc => hbc.trans hab)
    (fun s hs _ ht => s.shown_eq E (hpeek s hs) ht (hstops s hs)) h

/-- What is to be seen before the first row still is behind stages that let a row pass. -/
lemma upfront_replay (hlimit : limit 0 ∉ stages) (hsource : source.Upfront o) :
    flow.Upfront o ∧ flow.shown o = source.shown o := by
  refine replay_induction E (R := fun a b => a.Upfront o → b.Upfront o ∧ b.shown o = a.shown o)
    (fun _ ha => ⟨ha, rfl⟩) (fun hab hbc ha => ?_) (fun s hs t ht a ha => ?_) h hsource
  · obtain ⟨hb, hsame⟩ := hab ha
    exact (hbc hb).imp_right fun hsame' => hsame'.trans hsame
  · have hs0 : s ≠ limit 0 := by
      rintro rfl
      exact hlimit hs
    exact s.upfront E (hpeek s hs) ht hs0 fun _ => ha

end Replay

/-- What reaches a stage, and what becomes of it there and behind. -/
lemma exists_input {before after : List (Stage ρ)} {s : Stage ρ} {source flow : Flow ρ}
    (h : Operation.replay? (operations E (before ++ s :: after)) source = some flow) :
    ∃ input t, Operation.replay? (operations E before) source = some input ∧
      (s.operation E).transform = some t ∧
      Operation.replay? (operations E after) (t input) = some flow := by
  rw [operations, List.map_append, Operation.replay?_append] at h
  obtain ⟨input, hinput, h⟩ := Option.bind_eq_some_iff.1 h
  rw [List.map_cons, Operation.replay?_cons] at h
  obtain ⟨t, ht, h⟩ := Option.bind_eq_some_iff.1 h
  exact ⟨input, t, hinput, ht, h⟩

/-- Fewer than `2 ^ 64` rows come at each stage if they do so in front of the first and at each
stage behind it. -/
lemma lists_fitsThroughout_cons (s : Stage ρ) (stages : List (Stage ρ)) (rows : List ρ) :
    Interpretation.lists.FitsThroughout (operations E (s :: stages)) rows ↔
      rows.length < UInt64.size ∧
        Interpretation.lists.FitsThroughout (operations E stages) (s.eager E rows) := by
  obtain ⟨t, ht, hrows⟩ := s.exists_transform E
  have hperform : Interpretation.lists.perform? (s.operation E) rows = some (s.eager E rows) := by
    simp only [Interpretation.lists, ht, Option.map_some, hrows, Flow.rows_ofRows]
  refine and_congr_right fun _ => ⟨fun h => h _ hperform, fun h rows' hrows' => ?_⟩
  obtain rfl := Option.some.inj (hperform.symm.trans hrows')
  exact h

lemma exists_stage {op : Operation ρ} (hop : op.Standard E) : ∃ s : Stage ρ, s.operation E = op := by
  cases hop with
  | selects h =>
    cases h with
    | filter p => exact ⟨filter p, rfl⟩
    | distinct => exact ⟨distinct, rfl⟩
    | sorted => exact ⟨sorted, rfl⟩
    | sortedBy hc => exact ⟨sortedBy _, rfl⟩
    | limit n => exact ⟨limit n, rfl⟩
    | skip n => exact ⟨skip n, rfl⟩
  | map f => exact ⟨map f, rfl⟩
  | flatMap f => exact ⟨flatMap f, rfl⟩
  | peek o => exact ⟨peek o, rfl⟩
  | takeWhile p => exact ⟨takeWhile p, rfl⟩
  | dropWhile p => exact ⟨dropWhile p, rfl⟩

/-- Standard operations are those of stages. -/
lemma exists_stages {ops : List (Operation ρ)} (hops : ∀ op ∈ ops, op.Standard E) :
    ∃ stages, operations E stages = ops := by
  induction ops with
  | nil => exact ⟨[], rfl⟩
  | cons op ops ih =>
    obtain ⟨hop, hrest⟩ := List.forall_mem_cons.1 hops
    obtain ⟨stages, rfl⟩ := ih hrest
    obtain ⟨s, rfl⟩ := exists_stage E hop
    exact ⟨s :: stages, rfl⟩

/-- Replay hands out what list operations make of all rows, and pulls nothing before it is pulled
itself: an observer who sees the rows of the source go by sees them while the flow is pulled, all of
them if nothing stops before, and behind a sort right with the first pull. Without a sort, `k` rows
take the fewest rows of the source of which `k` come out. A limit that has handed out its rows pulls
no further, and however far the flow behind it is pulled, nobody sees more than those rows take; `o`
watches the source. -/
theorem replay_lazily {o : Observer} {stages : List (Stage ρ)} (hpeek : ∀ s ∈ stages, s ≠ peek o)
    (rows : List ρ) :
    let eager := eagerly E stages
    let watched := (Flow.ofRows rows).observe o
    (∀ source : Flow ρ, source.rows = rows →
      ∃ flow, Operation.replay? (operations E stages) source = some flow ∧
        flow.rows = eager rows ∧ (∀ k, (flow.take k).rows = (eager rows).take k) ∧
        flow.shown o <+: source.shown o ∧
        ((∀ s ∈ stages, s.stops = false) → flow.shown o = source.shown o) ∧
        ∀ before s after, stages = before ++ s :: after → s.sorts = true → limit 0 ∉ after →
          ∃ input, Operation.replay? (operations E before) source = some input ∧
            ∀ k, (flow.take (k + 1)).shown o = input.shown o) ∧
    ∃ flow, Operation.replay? (operations E stages) watched = some flow ∧
      ((∀ s ∈ stages, s.sorts = false) → ∀ k ≤ (eager rows).length,
        ∃ n, IsFewest eager k rows n ∧ (flow.take k).shown o = rows.take n) ∧
      ∀ before n after, stages = before ++ limit n :: after →
        ∃ input limited, Operation.replay? (operations E before) watched = some input ∧
          Operation.replay? [.limit n] input = some limited ∧
          Operation.replay? (operations E after) limited = some flow ∧
          limited.rest n.toNat = .empty ∧
          ∀ k, (flow.take k).shown o <+: (input.take n.toNat).shown o := by
  intro eager watched
  refine ⟨fun source hsource => ?_, ?_⟩
  · obtain ⟨flow, hreplay, heager⟩ := exists_replay E stages source
    rw [hsource] at heager
    refine ⟨flow, hreplay, heager, fun k => ?_, shown_replay_isPrefix E hpeek hreplay,
      shown_replay E hpeek hreplay, fun before s after hstages hsort hlimit => ?_⟩
    · rw [Flow.rows_take, heager]
    · subst hstages
      obtain ⟨input, t, hinput, ht, hlater⟩ := exists_input E hreplay
      have hs : s ≠ limit 0 := by
        rintro rfl
        cases hsort
      have hafter : ∀ s ∈ after, s ≠ peek o := fun s hs => hpeek s (by simp [hs])
      have hwait : s.sorts = false → input.Upfront o := by
        rw [hsort]
        nofun
      obtain ⟨hupfront, hsame⟩ := s.upfront E (hpeek s (by simp)) ht hs hwait
      obtain ⟨hfirst, hall⟩ := upfront_replay E hafter hlater hlimit hupfront
      exact ⟨input, hinput, fun k => (hfirst.shown_take k).trans (hall.trans hsame)⟩
  · have hwatched : watched.rows = rows := by simp [watched]
    obtain ⟨flow, hreplay, heager⟩ := exists_replay E stages watched
    refine ⟨flow, hreplay, fun hsorts k hk => ?_, fun before n after hstages => ?_⟩
    · obtain ⟨t, ht, hpulls⟩ := exists_pullsFewest E hpeek hsorts
      obtain rfl := Option.some.inj ((ht watched).symm.trans hreplay)
      rw [← hwatched] at hk
      obtain ⟨n, hn, hshown⟩ := hpulls.shown watched k hk
      rw [hwatched] at hn
      exact ⟨n, hn, hshown.trans (Flow.shown_take_observe_ofRows n rows)⟩
    · subst hstages
      obtain ⟨input, t, hinput, ht, hlater⟩ := exists_input E hreplay
      obtain rfl : Flow.take n.toNat = t := Option.some.inj ht
      have hafter : ∀ s ∈ after, s ≠ peek o := fun s hs => hpeek s (by simp [hs])
      refine ⟨input, input.take n.toNat, hinput, rfl, hlater, Flow.rest_take _ input, fun k => ?_⟩
      exact (Flow.shown_take_isPrefix k flow).trans (shown_replay_isPrefix E hafter hlater)

theorem replay_lazily_records :
    let E := Entity.ofColumns "User" "id" ["id", "name"]
    let o : Observer := ⟨0, "source"⟩
    let user (id : Int64) : Record := ⟨[("id", .int id), ("name", .text "A")]⟩
    let before : List (Stage Record) := [skip 1, filter (.column ⟨"id", .gt (.int 2)⟩),
      peek ⟨1, "peek"⟩]
    let stages := before ++ [flatMap ⟨2, fun row => [row, row]⟩, limit 3]
    let sorting := before ++ sortedBy (.column "id" .descending) :: [distinct, limit 1]
    let rows := [user 1, user 2, user 3, user 2, user 4, user 5]
    let eager := eagerly E stages
    let watched := (Flow.ofRows rows).observe o
    (∀ s ∈ stages, s ≠ peek o) ∧ (∀ s ∈ stages, s.sorts = false) ∧ (eager rows).length = 3 ∧
      (∃ flow, Operation.replay? (operations E stages) watched = some flow ∧
        ∃ n, IsFewest eager 3 rows n ∧ (flow.take 3).shown o = rows.take n) ∧
      (∀ s ∈ sorting, s ≠ peek o) ∧ (∀ s ∈ before, s.stops = false) ∧
      ∃ flow, Operation.replay? (operations E sorting) watched = some flow ∧
        ∀ k, (flow.take (k + 1)).shown o = watched.shown o := by
  intro E o user before stages sorting rows eager watched
  have hbefore : ∀ s ∈ before, s ≠ peek o := by simp [before, o]
  have hstops : ∀ s ∈ before, s.stops = false := by simp [before, stops]
  have hpeek : ∀ s ∈ stages, s ≠ peek o := by simp [stages, before, o]
  have hpeek' : ∀ s ∈ sorting, s ≠ peek o := by simp [sorting, before, o]
  have hsorts : ∀ s ∈ stages, s.sorts = false := by simp [stages, before, sorts]
  have hlength : (eager rows).length = 3 := by decide
  have hwatched : watched.rows = rows := by simp [watched]
  obtain ⟨-, flow, hreplay, hfewest, -⟩ := replay_lazily E hpeek rows
  obtain ⟨input, hinput, -, -, -, hall, -⟩ := (replay_lazily E hbefore rows).1 watched hwatched
  obtain ⟨flow', hreplay', -, -, -, -, hsorted⟩ :=
    (replay_lazily E hpeek' rows).1 watched hwatched
  obtain ⟨input', hinput', hfirst⟩ := hsorted before _ _ rfl rfl (by simp)
  obtain rfl := Option.some.inj (hinput.symm.trans hinput')
  exact ⟨hpeek, hsorts, hlength,
    ⟨flow, hreplay, hfewest hsorts 3 (Nat.le_of_eq hlength.symm)⟩, hpeek', hstops,
    flow', hreplay', fun k => (hfirst k).trans (hall hstops)⟩

end Stage
end Pushdown
