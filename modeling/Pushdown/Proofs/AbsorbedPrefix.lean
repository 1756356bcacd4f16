import Pushdown.Proofs.StandardPasses

/-!
# Absorbed prefixes

Strategies are free in what they do to the target, but in the books they may write about the one
position that they are given, and they write nothing where they fail. Under any strategies that keep
to this, a pass takes operations off the front and leaves the others as they are, but for the first
of them, which may give way to what is left of it. That no strategy is called behind that operation
shows in a run with strategies that log their calls.
-/

namespace Pushdown

variable {ρ σ : Type}

namespace Entries

variable {κ β : Type} [Ord κ] [Std.ReflOrd κ]

lemma alterIn_alterIn (k : κ) (v w : β) (es : List (κ × β)) :
    alterIn k (fun _ => w) (alterIn k (fun _ => v) es) = alterIn k (fun _ => w) es := by
  induction es with
  | nil => simp [alterIn]
  | cons e es ih =>
    obtain ⟨k', v'⟩ := e
    cases h : compare k k' <;> simp [alterIn, h, ih]

lemma insert_insert (m : Entries κ β) (k : κ) (v w : β) :
    (m.insert k v).insert k w = m.insert k w :=
  congrArg Entries.mk (alterIn_alterIn k v w m.toList)

end Entries

namespace Tracker

/-- What books may become while someone works on position `i`: that position is marked or replaced,
and kinds are merged. -/
inductive Touched (i : Nat) (t : Tracker ρ) : Tracker ρ → Prop
  | untouched : Touched i t t
  | markForRemoval {t' : Tracker ρ} (h : Touched i t t') : Touched i t (t'.markForRemoval i)
  | replaceWith {t' : Tracker ρ} (h : Touched i t t') (residual : Operation ρ) :
      Touched i t (t'.replaceWith i residual)
  | markMerged {t' : Tracker ρ} (h : Touched i t t') (kind : Kind) :
      Touched i t (t'.markMerged kind)

/-- Of all that was written about a position, the last mark is in the books. -/
lemma Touched.marks {i : Nat} {t t' : Tracker ρ} (h : Touched i t t') :
    t'.failures = t.failures ∧ (t'.marks = t.marks ∨ ∃ m, t'.marks = t.marks.insert i m) := by
  have hinsert {marks : Entries Nat (Mark ρ)} (m : Mark ρ)
      (hmarks : marks = t.marks ∨ ∃ m, marks = t.marks.insert i m) :
      marks.insert i m = t.marks.insert i m := by
    rcases hmarks with rfl | ⟨m', rfl⟩
    · rfl
    · exact Entries.insert_insert t.marks i m' m
  induction h with
  | untouched => exact ⟨rfl, Or.inl rfl⟩
  | markForRemoval h ih => exact ⟨ih.1, Or.inr ⟨_, hinsert .absorbed ih.2⟩⟩
  | replaceWith h residual ih => exact ⟨ih.1, Or.inr ⟨_, hinsert (.residual residual) ih.2⟩⟩
  | markMerged h kind ih => exact ih

/-- A position is absorbed or replaced if it has a mark. -/
lemma isMarked_eq_isSome (t : Tracker ρ) (i : Nat) :
    (t.isMarkedForRemoval i || t.isReplaced i) = (t.marks.find? i).isSome := by
  unfold isMarkedForRemoval isReplaced
  match t.marks.find? i with
  | none => rfl
  | some .absorbed => rfl
  | some (.residual op) => rfl

end Tracker

/-- A call of a strategy: the position and the operation that it is given, and the mark that the
position has afterwards. -/
structure Call (ρ : Type) where
  index : Nat
  operation : Operation ρ
  mark? : Option (Mark ρ)

/-- A target with a log of the calls. -/
abbrev Logged (ρ σ : Type) := σ × List (Call ρ)

namespace Strategy

/-- A strategy may write about the position that it is given or not at all, and not at all where it
fails. -/
inductive Obeys (i : Nat) (s : MergeState ρ σ) : MergeState ρ σ × Option LoweringError → Prop
  | writes {s' : MergeState ρ σ} (h : s.tracker.Touched i s'.tracker) : Obeys i s (s', none)
  | fails {s' : MergeState ρ σ} (e : LoweringError) (h : s'.tracker = s.tracker) :
      Obeys i s (s', some e)

def KeepsContract (strategy : Strategy ρ σ) : Prop :=
  ∀ i op s, Obeys i s (strategy.apply i op s)

/-- The strategy, which notes its calls behind the target, and otherwise does as before. -/
def logged (strategy : Strategy ρ σ) : Strategy ρ (Logged ρ σ) where
  accepts := strategy.accepts
  apply i op s :=
    let next := strategy.apply i op ⟨s.target.1, s.tracker⟩
    let call := ⟨i, op, next.1.tracker.marks.find? i⟩
    (⟨(next.1.target, s.target.2 ++ [call]), next.1.tracker⟩, next.2)

end Strategy

def MergeState.withoutLog (s : MergeState ρ (Logged ρ σ)) : MergeState ρ σ :=
  ⟨s.target.1, s.tracker⟩

namespace Pass

/-- The pass with strategies that log their calls. -/
def runLogged (strategies : Kind → List (Strategy ρ σ)) (ops : List (Operation ρ)) (target : σ) :
    Pass ρ (Logged ρ σ) :=
  run (fun kind => (strategies kind).map Strategy.logged) ops (target, [])

/-- The log of a pass that has absorbed the first `k` operations and perhaps tried the next one. -/
structure Logs (ops : List (Operation ρ)) (k : Nat) (log : List (Call ρ)) : Prop where
  calls : ∀ call ∈ log, call.index ≤ k ∧ ops[call.index]? = some call.operation
  absorbed : ∀ i < k, ∃ op, ⟨i, op, some .absorbed⟩ ∈ log

/-- The pass `p` over `ops` has absorbed the first `k` operations and no others; `l` is the same
pass with a log of the calls. Of the operation at `k`, what a call has registered may be left. All
others behind `k` are there as they were, and no strategy was called for them. -/
structure AbsorbsPrefix (ops : List (Operation ρ)) (p : Pass ρ σ) (l : Pass ρ (Logged ρ σ))
    (k : Nat) : Prop extends Logs ops k l.target.2 where
  le_length : k ≤ ops.length
  removed : p.outcome.removed = k
  left : p.outcome.replaced = 0 ∧ p.operations = ops.drop k ∨
    ∃ op residual, p.outcome.replaced = 1 ∧ p.operations = residual :: ops.drop (k + 1) ∧
      ops[k]? = some op ∧ ⟨k, op, some (.residual residual)⟩ ∈ l.target.2
  length : p.outcome.removed + p.operations.length = ops.length
  failures : p.outcome.failures.length ≤ 1
  logged : l.operations = p.operations ∧ l.target.1 = p.target ∧ l.outcome = p.outcome

/-- Strategies are tried until one of them marks the position, which no other one does then. -/
lemma marks_tryEach {strategies : List (Strategy ρ σ)} (h : ∀ s ∈ strategies, s.KeepsContract)
    {i : Nat} (op : Operation ρ) {s : MergeState ρ σ} (hs : s.tracker.marks.find? i = none) :
    let next := tryEach i op strategies s
    next.1.tracker.failures = s.tracker.failures ∧
      (next.1.tracker.marks = s.tracker.marks ∨
        next.2 = none ∧ ∃ m, next.1.tracker.marks = s.tracker.marks.insert i m) := by
  induction strategies generalizing s with
  | nil => exact ⟨rfl, Or.inl rfl⟩
  | cons strategy strategies ih =>
    obtain ⟨hstrategy, hstrategies⟩ := List.forall_mem_cons.1 h
    have hobeys := hstrategy i op s
    rw [tryEach]
    generalize strategy.apply i op s = next at hobeys ⊢
    cases hobeys with
    | fails e hsame =>
      exact ⟨congrArg Tracker.failures hsame, Or.inl (congrArg Tracker.marks hsame)⟩
    | @writes s' htouched =>
      obtain ⟨hfailures, hmarks⟩ := htouched.marks
      rcases hmarks with hsame | ⟨m, hinsert⟩
      · have hs' : s'.tracker.marks.find? i = none := hsame ▸ hs
        obtain ⟨hfailures', hmarks'⟩ := ih hstrategies hs'
        rw [hsame] at hmarks'
        simp only [Tracker.isMarked_eq_isSome, hs', Option.isSome_none, Bool.false_eq_true,
          if_false]
        exact ⟨hfailures'.trans hfailures, hmarks'⟩
      · have hfind : s'.tracker.marks.find? i = some m := by
          rw [hinsert, Entries.find?_insert_self]
        simp only [Tracker.isMarked_eq_isSome, hfind, Option.isSome_some, if_true]
        exact ⟨hfailures, Or.inr ⟨trivial, m, hinsert⟩⟩

/-- A log changes nothing else. It holds the one operation over and over, and at some call the mark
that the position gets. -/
lemma tryEach_logged (strategies : List (Strategy ρ σ)) (i : Nat) (op : Operation ρ)
    (s : MergeState ρ (Logged ρ σ)) :
    let next := tryEach i op (strategies.map Strategy.logged) s
    tryEach i op strategies s.withoutLog = (next.1.withoutLog, next.2) ∧
      ∃ calls, next.1.target.2 = s.target.2 ++ calls ∧
        (∀ call ∈ calls, call.index = i ∧ call.operation = op) ∧
        ∀ m, s.tracker.marks.find? i = none → next.1.tracker.marks.find? i = some m →
          ⟨i, op, some m⟩ ∈ calls := by
  induction strategies generalizing s with
  | nil => exact ⟨rfl, [], (List.append_nil _).symm, nofun, fun m hs hm => nomatch hs.symm.trans hm⟩
  | cons strategy strategies ih =>
    have hlogged : strategy.logged.apply i op s =
        let next := strategy.apply i op s.withoutLog
        let call := ⟨i, op, next.1.tracker.marks.find? i⟩
        (⟨(next.1.target, s.target.2 ++ [call]), next.1.tracker⟩, next.2) := rfl
    rw [List.map_cons, tryEach, tryEach, hlogged]
    obtain ⟨s', failure?⟩ := strategy.apply i op s.withoutLog
    have hcall : ∀ call ∈ [(⟨i, op, s'.tracker.marks.find? i⟩ : Call ρ)],
        call.index = i ∧ call.operation = op := by simp
    have hmark : ∀ m, s'.tracker.marks.find? i = some m →
        (⟨i, op, some m⟩ : Call ρ) ∈ [(⟨i, op, s'.tracker.marks.find? i⟩ : Call ρ)] :=
      fun m hm => by rw [hm]; exact List.mem_singleton.2 rfl
    cases failure? with
    | some e => exact ⟨rfl, _, rfl, hcall, fun m _ => hmark m⟩
    | none =>
      simp only [Tracker.isMarked_eq_isSome]
      cases hfind : s'.tracker.marks.find? i with
      | some m' =>
        simp only [Option.isSome_some, if_true]
        rw [hfind] at hcall hmark
        exact ⟨rfl, _, rfl, hcall, fun m _ hm => hmark m (hfind ▸ hm)⟩
      | none =>
        simp only [Option.isSome_none, Bool.false_eq_true, if_false]
        rw [hfind] at hcall
        obtain ⟨heq, calls, hlog, hcalls, hmarked⟩ :=
          ih ⟨(s'.target, s.target.2 ++ [⟨i, op, none⟩]), s'.tracker⟩
        refine ⟨heq, _, hlog.trans (List.append_assoc _ _ _), ?_, fun m _ hm => ?_⟩
        · exact List.forall_mem_append.2 ⟨hcall, hcalls⟩
        · exact List.mem_append_right _ (hmarked m hfind hm)

lemma walk_logged (strategies : Kind → List (Strategy ρ σ)) (i : Nat) (ops : List (Operation ρ))
    (s : MergeState ρ (Logged ρ σ)) :
    (walk (fun kind => (strategies kind).map Strategy.logged) i ops s).withoutLog =
      walk strategies i ops s.withoutLog := by
  induction ops generalizing i s with
  | nil => rfl
  | cons op ops ih =>
    obtain ⟨heq, -⟩ := tryEach_logged (strategies op.kind) i op s
    rw [walk, walk, heq]
    obtain ⟨s', failure?⟩ := tryEach i op ((strategies op.kind).map Strategy.logged) s
    cases failure? with
    | some e => rfl
    | none =>
      have htracker : s'.withoutLog.tracker = s'.tracker := rfl
      simp only [htracker]
      split
      · exact ih (i + 1) s'
      · rfl

/-- The first `k` of the operations are absorbed and `residual?` is what is left of the next one,
if the books and the log say so. -/
structure Stands (ops : List (Operation ρ)) (k : Nat) (residual? : Option (Operation ρ))
    (s : MergeState ρ (Logged ρ σ)) : Prop extends Logs ops k s.target.2 where
  le_length : k ≤ ops.length
  marks : s.tracker.marks.toList =
    Tracker.absorbedMarks k ++ residual?.toList.map fun op => (k, .residual op)
  registered : ∀ residual ∈ residual?, ∃ op, ⟨k, op, some (.residual residual)⟩ ∈ s.target.2

/-- What a pass that has come to the operation at `k` finds when the strategies have tried it. -/
inductive Tried (ops : List (Operation ρ)) (k : Nat) (s : MergeState ρ (Logged ρ σ)) :
    Option LoweringError → Prop
  | leaves (failure? : Option LoweringError) (hmark : s.tracker.marks.find? k = none)
      (hs : Stands ops k none s) : Tried ops k s failure?
  | absorbs (hmark : s.tracker.marks.find? k = some .absorbed)
      (hs : Stands ops (k + 1) none s) : Tried ops k s none
  | divides (residual : Operation ρ) (hmark : s.tracker.marks.find? k = some (.residual residual))
      (hs : Stands ops k (some residual) s) : Tried ops k s none

section Walk

variable {strategies : Kind → List (Strategy ρ σ)} {ops : List (Operation ρ)} {k : Nat}

lemma Logs.append {log new : List (Call ρ)} (h : Logs ops k log) {op : Operation ρ}
    (hop : ops[k]? = some op) (hnew : ∀ call ∈ new, call.index = k ∧ call.operation = op) :
    Logs ops k (log ++ new) where
  calls := by
    refine List.forall_mem_append.2 ⟨h.calls, fun call hcall => ?_⟩
    obtain ⟨rfl, rfl⟩ := hnew call hcall
    exact ⟨Nat.le_refl _, hop⟩
  absorbed i hi := (h.absorbed i hi).imp fun _ hmem => List.mem_append_left new hmem

lemma Logs.succ {log : List (Call ρ)} (h : Logs ops k log) {op : Operation ρ}
    (hop : ⟨k, op, some .absorbed⟩ ∈ log) : Logs ops (k + 1) log where
  calls call hcall := ⟨Nat.le_succ_of_le (h.calls call hcall).1, (h.calls call hcall).2⟩
  absorbed i hi := by
    rcases Nat.lt_succ_iff_lt_or_eq.1 hi with hlt | rfl
    · exact h.absorbed i hlt
    · exact ⟨op, hop⟩

/-- Strategies that keep their contract write about the operation that they try, and in the end at
most once. -/
lemma Stands.tried (hcontract : ∀ kind, ∀ s ∈ strategies kind, s.KeepsContract)
    {s : MergeState ρ (Logged ρ σ)} (h : Stands ops k none s) {op : Operation ρ}
    (hop : ops[k]? = some op) :
    let next := tryEach k op ((strategies op.kind).map Strategy.logged) s
    next.1.tracker.failures = s.tracker.failures ∧ Tried ops k next.1 next.2 := by
  have hmarks : s.tracker.marks.toList = Tracker.absorbedMarks k := by simpa using h.marks
  have hfind : s.tracker.marks.find? k = none := Tracker.find?_of_marks hmarks
  obtain ⟨heq, new, hlog, hnew, hmarked⟩ := tryEach_logged (strategies op.kind) k op s
  obtain ⟨hfailures, htouched⟩ := marks_tryEach (hcontract op.kind) op (s := s.withoutLog) hfind
  have hlogs := h.toLogs.append hop hnew
  rw [heq] at hfailures htouched
  generalize tryEach k op ((strategies op.kind).map Strategy.logged) s = next
    at hlog hmarked hfailures htouched ⊢
  obtain ⟨s', failure?⟩ := next
  change s'.target.2 = s.target.2 ++ new at hlog
  rw [← hlog] at hlogs
  refine ⟨hfailures, ?_⟩
  rcases htouched with hsame | ⟨hnone, m, hinsert⟩
  · change s'.tracker.marks = s.tracker.marks at hsame
    refine .leaves failure? (hsame ▸ hfind) ⟨hlogs, h.le_length, ?_, nofun⟩
    rw [hsame]
    exact h.marks
  · obtain rfl : failure? = none := hnone
    change s'.tracker.marks = s.tracker.marks.insert k m at hinsert
    have hmark : s'.tracker.marks.find? k = some m := by rw [hinsert, Entries.find?_insert_self]
    have hcall : ⟨k, op, some m⟩ ∈ s'.target.2 :=
      hlog ▸ List.mem_append_right _ (hmarked m hfind hmark)
    have hmarks' := Tracker.insert_of_marks hmarks m
    rw [← hinsert] at hmarks'
    cases m with
    | absorbed =>
      obtain ⟨hlt, -⟩ := List.getElem?_eq_some_iff.1 hop
      refine .absorbs hmark ⟨hlogs.succ hcall, hlt, ?_, nofun⟩
      simpa [Tracker.absorbedMarks_succ] using hmarks'
    | residual residual =>
      refine .divides residual hmark ⟨hlogs, h.le_length, hmarks', ?_⟩
      rintro _ ⟨⟩
      exact ⟨op, hcall⟩

/-- The walk goes on behind an operation that is absorbed, and ends at any other. -/
lemma exists_stands (hcontract : ∀ kind, ∀ s ∈ strategies kind, s.KeepsContract)
    {s : MergeState ρ (Logged ρ σ)} {rest : List (Operation ρ)} (hrest : ops.drop k = rest)
    (h : Stands ops k none s) (hfailures : s.tracker.failures = []) :
    let s' := walk (fun kind => (strategies kind).map Strategy.logged) k rest s
    s'.tracker.failures.length ≤ 1 ∧ ∃ k' residual?, Stands ops k' residual? s' := by
  induction rest generalizing k s with
  | nil => exact ⟨by simp [walk, hfailures], k, none, h⟩
  | cons op rest ih =>
    have hop : ops[k]? = some op := by rw [← List.head?_drop, hrest, List.head?_cons]
    have hrest' : ops.drop (k + 1) = rest := by rw [← List.tail_drop, hrest, List.tail_cons]
    obtain ⟨hsame, htried⟩ := h.tried hcontract hop
    rw [walk]
    generalize tryEach k op ((strategies op.kind).map Strategy.logged) s = next at hsame htried ⊢
    obtain ⟨s', failure?⟩ := next
    have hnone : s'.tracker.failures = [] := hsame.trans hfailures
    cases htried with
    | leaves _ hmark hs =>
      cases failure? with
      | some e =>
        refine ⟨?_, k, none, hs.toLogs, hs.le_length, hs.marks, hs.registered⟩
        simp [Tracker.recordFailure, hnone]
      | none =>
        simp only [Tracker.isMarkedForRemoval, hmark]
        exact ⟨by simp [hnone], k, none, hs⟩
    | absorbs hmark hs =>
      simp only [Tracker.isMarkedForRemoval, hmark]
      exact ih hrest' hs hnone
    | divides residual hmark hs =>
      simp only [Tracker.isMarkedForRemoval, hmark]
      exact ⟨by simp [hnone], k, some residual, hs⟩

end Walk

/-- A log changes nothing else of what a pass does. -/
lemma run_eq_runLogged (strategies : Kind → List (Strategy ρ σ)) (ops : List (Operation ρ))
    (target : σ) :
    let l := runLogged strategies ops target
    run strategies ops target = ⟨l.operations, l.target.1, l.outcome⟩ := by
  have hwalk := walk_logged strategies 0 ops ⟨(target, []), .new⟩
  have hstart : MergeState.withoutLog (⟨(target, []), .new⟩ : MergeState ρ (Logged ρ σ)) =
      ⟨target, .new⟩ := rfl
  rw [hstart] at hwalk
  rw [run, ← hwalk]
  rfl

lemma Stands.exists_divided {ops : List (Operation ρ)} {k : Nat} {residual : Operation ρ}
    {s : MergeState ρ (Logged ρ σ)} (h : Stands ops k (some residual) s) :
    ∃ op, ops[k]? = some op ∧ ⟨k, op, some (.residual residual)⟩ ∈ s.target.2 :=
  (h.registered residual rfl).imp fun _ hcall => ⟨(h.calls _ hcall).2, hcall⟩

/-- The absorbed operations are stripped, and what is left of the next one stands in its place. -/
lemma Stands.applyTo {ops : List (Operation ρ)} {k : Nat} {residual? : Option (Operation ρ)}
    {s : MergeState ρ (Logged ρ σ)} (h : Stands ops k residual? s) :
    s.tracker.applyTo ops =
      .ok (residual?.toList ++ ops.drop (k + residual?.toList.length)) := by
  have htake : (ops.take k).length = k := List.length_take_of_le h.le_length
  have hmarks := h.marks
  rw [← htake] at hmarks
  cases residual? with
  | none =>
    have hleft := Tracker.applyTo_of_marks (ops.take k) [] (ops.drop k) hmarks rfl
    simpa using hleft
  | some residual =>
    obtain ⟨op, hop, -⟩ := h.exists_divided
    obtain ⟨hlt, hop⟩ := List.getElem?_eq_some_iff.1 hop
    have hsplit : ops.take k ++ [op] ++ ops.drop (k + 1) = ops := by
      rw [← hop, List.take_append_getElem hlt, List.take_append_drop]
    have hleft := Tracker.applyTo_of_marks (ops.take k) [op] (ops.drop (k + 1)) hmarks rfl
    rwa [hsplit] at hleft

/-- Under strategies that keep their contract, a pass absorbs a prefix and nothing else. -/
lemma exists_absorbsPrefix {strategies : Kind → List (Strategy ρ σ)}
    (hcontract : ∀ kind, ∀ s ∈ strategies kind, s.KeepsContract) (ops : List (Operation ρ))
    (target : σ) :
    ∃ k, AbsorbsPrefix ops (run strategies ops target) (runLogged strategies ops target) k := by
  have hstart : Stands ops 0 none (⟨(target, []), .new⟩ : MergeState ρ (Logged ρ σ)) :=
    ⟨⟨nofun, nofun⟩, Nat.zero_le _, rfl, nofun⟩
  obtain ⟨hfailures, k, residual?, h⟩ := exists_stands hcontract List.drop_zero hstart rfl
  obtain ⟨hremovals, hresiduals⟩ := Tracker.removals_of_marks h.marks
  have hremoved : (runLogged strategies ops target).outcome.removed = k :=
    (congrArg List.length hremovals).trans List.length_range
  have hreplaced : (runLogged strategies ops target).outcome.replaced =
      residual?.toList.length := (congrArg List.length hresiduals).trans (by simp)
  have hleft : (runLogged strategies ops target).operations =
      residual?.toList ++ ops.drop (k + residual?.toList.length) := by
    simp only [runLogged, run, h.applyTo]
  have hk := h.le_length
  rw [run_eq_runLogged]
  refine ⟨k, h.toLogs, hk, hremoved, ?_, ?_, ?_, rfl, rfl, rfl⟩
  · cases residual? with
    | none => exact Or.inl ⟨hreplaced, hleft⟩
    | some residual =>
      obtain ⟨op, hdivided⟩ := h.exists_divided
      exact Or.inr ⟨op, residual, hreplaced, hleft, hdivided⟩
  · have hlt : k + residual?.toList.length ≤ ops.length := by
      cases residual? with
      | none => exact hk
      | some residual =>
        obtain ⟨op, hop, -⟩ := h.exists_divided
        exact (List.getElem?_eq_some_iff.1 hop).1
    simp only [hremoved, hleft, List.length_append, List.length_drop]
    omega
  · simpa [runLogged, run, Tracker.outcome] using hfailures

end Pass

namespace Strategy

variable (E : Entity ρ)

lemma keepsContract_pushFilter : (pushFilter E).KeepsContract := by
  intro i op s
  have huntouched : Obeys i s (s, none) := .writes .untouched
  change Obeys i s (applyFilter E i op s)
  unfold applyFilter
  split
  · simp only
    split
    · exact huntouched
    · split
      · exact .fails _ rfl
      · refine .writes (.markMerged ?_ .filter)
        split
        · exact .markForRemoval .untouched
        · exact .replaceWith .untouched _
  · exact huntouched

lemma keepsContract_pushSort : (pushSort E).KeepsContract := by
  intro i op s
  change Obeys i s (applySort E i op s)
  unfold applySort
  simp only
  split
  · exact .writes .untouched
  · split
    · exact .fails _ rfl
    · exact .writes (.markMerged (.markForRemoval .untouched) .sorted)

lemma keepsContract_pushDistinct : (pushDistinct : Strategy ρ Criteria).KeepsContract := by
  intro i op s
  change Obeys i s (applyDistinct i op s)
  unfold applyDistinct
  split
  · exact .writes .untouched
  · split
    · exact .writes (.markForRemoval .untouched)
    · exact .writes (.markForRemoval (.markMerged .untouched .distinct))

lemma keepsContract_pushSkip : (pushSkip : Strategy ρ Query).KeepsContract := by
  intro i op s
  change Obeys i s (applySkip i op s)
  unfold applySkip
  split
  · exact .writes .untouched
  · exact .writes (.markMerged (.markForRemoval .untouched) .skip)

lemma keepsContract_pushLimit : (pushLimit : Strategy ρ Query).KeepsContract := by
  intro i op s
  change Obeys i s (applyLimit i op s)
  unfold applyLimit
  split
  · exact .writes .untouched
  · exact .writes (.markMerged (.markForRemoval .untouched) .limit)

end Strategy

namespace Registry

/-- All strategies that the registry offers to a pass keep their contract. -/
structure KeepsContract (r : Registry ρ) : Prop where
  criteria : ∀ kind, ∀ s ∈ r.criteriaFor kind, s.KeepsContract
  query : ∀ kind, ∀ s ∈ r.queryFor kind, s.KeepsContract

lemma keepsContract_standard (E : Entity ρ) : (standard E).KeepsContract where
  criteria kind s hs := by
    rw [criteriaFor_standard] at hs
    cases kind with
    | filter => exact List.mem_singleton.1 hs ▸ Strategy.keepsContract_pushFilter E
    | sorted => exact List.mem_singleton.1 hs ▸ Strategy.keepsContract_pushSort E
    | distinct => exact List.mem_singleton.1 hs ▸ Strategy.keepsContract_pushDistinct
    | _ => cases hs
  query kind s hs := by
    rw [queryFor_standard] at hs
    cases kind with
    | skip => exact List.mem_singleton.1 hs ▸ Strategy.keepsContract_pushSkip
    | limit => exact List.mem_singleton.1 hs ▸ Strategy.keepsContract_pushLimit
    | _ => cases hs

/-- Either pass of a registry whose strategies keep their contract absorbs operations at the front.
It leaves the others as they are, but for the first of them, which may give way to what a call has
registered as left of it, and it calls no strategy for an operation behind that one. -/
theorem passes_absorb_front {r : Registry ρ} (hr : r.KeepsContract) (ops : List (Operation ρ)) :
    (∀ c : Criteria, ∃ k,
      Pass.AbsorbsPrefix ops (r.mergeCriteria ops c) (Pass.runLogged r.criteriaFor ops c) k) ∧
    ∀ q : Query, ∃ k,
      Pass.AbsorbsPrefix ops (r.mergeQuery ops q) (Pass.runLogged r.queryFor ops q) k :=
  ⟨Pass.exists_absorbsPrefix hr.criteria ops, Pass.exists_absorbsPrefix hr.query ops⟩

theorem passes_absorb_front_records :
    let E := Entity.ofColumns "User" "id" ["id", "name"]
    let even : Predicate Record := .closure ⟨1, fun row => row.cells.length % 2 == 0⟩
    let ops := [.sorted E, .filter E ((Predicate.column ⟨"id", .gt (.int 1)⟩).and even),
      .distinct E, .limit 3]
    let c := Criteria.new "User"
    let p := (standard E).mergeCriteria ops c
    (standard E).KeepsContract ∧
      (∃ k, Pass.AbsorbsPrefix ops p (Pass.runLogged (standard E).criteriaFor ops c) k) ∧
      p.outcome.removed = 1 ∧ p.outcome.replaced = 1 ∧ p.operations.length = 3 := by
  intro E even ops c p
  have hstandard := keepsContract_standard E
  exact ⟨hstandard, (passes_absorb_front hstandard ops).1 c, by decide⟩

end Registry
end Pushdown
