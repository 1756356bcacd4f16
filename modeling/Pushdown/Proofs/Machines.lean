import Pushdown.Proofs.Replay

/-!
# Row machines

All operations on flows but the sorts read their rows one by one: what they make of a row depends on
the rows before it, and they may stop behind it. A consumer who pulls `k` rows from such a machine
makes it pull as many rows as it takes to make `k`, and no row more. This composes, since a machine
makes a beginning of its rows out of a beginning of what it reads. A sort is no machine: it pulls
everything before it hands out its first row, and a machine behind it cannot put that off.
-/

namespace Pushdown

variable {ρ : Type}

/-- The rows that `o` gets to see up to the end. -/
def Pulled.shown (o : Observer) (p : Pulled ρ) : List ρ :=
  (p.visits.filter fun v => v.observer = o).map Visit.row

def Flow.shown (o : Observer) (flow : Flow ρ) : List ρ := (flow.pull ()).shown o

namespace Pulled

variable {o : Observer}

@[simp] lemma shown_ended : (ended : Pulled ρ).shown o = [] := rfl

@[simp] lemma shown_row (r : ρ) (rest : Unit → Pulled ρ) :
    (step (.row r) rest).shown o = (rest ()).shown o := by
  simp [shown]

lemma shown_visit (v : Visit ρ) (rest : Unit → Pulled ρ) :
    (step (.visit v) rest).shown o =
      (if v.observer = o then [v.row] else []) ++ (rest ()).shown o := by
  by_cases h : v.observer = o <;> simp [shown, h]

lemma shown_prepend {ss : List (Step ρ)} (h : ∀ v, .visit v ∈ ss → v.observer ≠ o)
    (later : Unit → Pulled ρ) : (prepend ss later).shown o = (later ()).shown o := by
  induction ss with
  | nil => rfl
  | cons s ss ih =>
    have hss : ∀ v, .visit v ∈ ss → v.observer ≠ o := fun v hv => h v (List.mem_cons_of_mem s hv)
    cases s with
    | visit v => simp [prepend, shown_visit, h v, ih hss]
    | row r => simp [prepend, ih hss]

lemma rows_prepend (ss : List (Step ρ)) (later : Unit → Pulled ρ) :
    (prepend ss later).rows = ss.filterMap Step.row? ++ (later ()).rows := by
  induction ss with
  | nil => rfl
  | cons s ss ih =>
    cases s with
    | visit v => simp [prepend, List.filterMap_cons, Step.row?, ih]
    | row r => simp [prepend, Step.row?, ih]

/-- A consumer who is content with rows at the front sees no visit from behind. -/
lemma shown_takeSucc_prepend_of_lt {ss : List (Step ρ)}
    (h : ∀ v, .visit v ∈ ss → v.observer ≠ o) (later : Unit → Pulled ρ) {k : Nat}
    (hk : k < (ss.filterMap Step.row?).length) : ((prepend ss later).takeSucc k).shown o = [] := by
  induction ss generalizing k with
  | nil => cases hk
  | cons s ss ih =>
    have hss : ∀ v, .visit v ∈ ss → v.observer ≠ o := fun v hv => h v (List.mem_cons_of_mem s hv)
    cases s with
    | visit v => simpa [prepend, takeSucc, shown_visit, h v] using ih hss hk
    | row r =>
      cases k with
      | zero => simp [prepend, takeSucc]
      | succ k => simpa [prepend, takeSucc] using ih hss (Nat.lt_of_succ_lt_succ hk)

lemma takeSucc_prepend (ss : List (Step ρ)) (later : Unit → Pulled ρ) (k : Nat) :
    (prepend ss later).takeSucc ((ss.filterMap Step.row?).length + k) =
      prepend ss fun _ => (later ()).takeSucc k := by
  induction ss with
  | nil => simp [prepend]
  | cons s ss ih =>
    cases s with
    | visit v => simp [prepend, takeSucc, List.filterMap_cons, Step.row?, ih]
    | row r => simp [prepend, takeSucc, Step.row?, Nat.add_right_comm _ 1, ih]

/-- A consumer who stops early sees the first of what there is to see. -/
lemma shown_takeSucc_isPrefix (n : Nat) (p : Pulled ρ) : (p.takeSucc n).shown o <+: p.shown o := by
  fun_induction takeSucc n p with
  | case1 n => exact List.nil_prefix
  | case2 n v rest ih =>
    rw [shown_visit, shown_visit, List.prefix_append_right_inj]
    exact ih
  | case3 r rest => exact List.nil_prefix
  | case4 n r rest ih =>
    rw [shown_row, shown_row]
    exact ih

lemma shown_takeSucc_prepend_visit (vs : List (Visit ρ)) {later : Unit → Pulled ρ}
    (h : (later ()).shown o = []) :
    ((prepend (vs.map .visit) later).takeSucc 0).shown o =
      (prepend (vs.map .visit) later).shown o := by
  induction vs with
  | nil =>
    have hprefix := shown_takeSucc_isPrefix (o := o) 0 (later ())
    rw [h, List.prefix_nil] at hprefix
    exact hprefix.trans h.symm
  | cons v vs ih => simp [prepend, takeSucc, shown_visit, ih]

/-- A rearrangement has pulled everything when its first row comes. -/
lemma shown_takeSucc_rearrange (f : List ρ → List ρ) (p : Pulled ρ) :
    ((p.rearrange f).takeSucc 0).shown o = (p.rearrange f).shown o :=
  shown_takeSucc_prepend_visit _ (shown_prepend (by simp) _)

end Pulled

namespace Flow

variable {o : Observer}

lemma shown_take_isPrefix (n : Nat) (flow : Flow ρ) : (flow.take n).shown o <+: flow.shown o := by
  cases n with
  | zero => exact List.nil_prefix
  | succ n => exact Pulled.shown_takeSucc_isPrefix n (flow.pull ())

lemma shown_congr {flow flow' : Flow ρ} (h : flow.visits = flow'.visits) :
    flow.shown o = flow'.shown o :=
  congrArg (fun vs => (vs.filter fun v => v.observer = o).map Visit.row) h

/-- Another observer is in nobody's way. -/
lemma shown_observe {o' : Observer} (hne : o' ≠ o) (flow : Flow ρ) :
    (flow.observe o').shown o = flow.shown o := by
  change ((flow.pull ()).observe o').shown o = (flow.pull ()).shown o
  generalize flow.pull () = p
  fun_induction Pulled.observe o' p with
  | case1 => rfl
  | case2 v rest ih => rw [Pulled.shown_visit, Pulled.shown_visit, ih]
  | case3 r rest ih => simp [Pulled.shown_visit, hne, ih]

/-- Behind the rows that are taken, nothing happens any more. -/
lemma rest_take (n : Nat) (flow : Flow ρ) : (flow.take n).rest n = empty := by
  cases n with
  | zero => rfl
  | succ n =>
    change ((flow.pull ()).takeSucc n).restSucc n = empty
    generalize flow.pull () = p
    fun_induction Pulled.takeSucc n p with
    | case1 n => rfl
    | case2 n v rest ih => exact ih
    | case3 r rest => rfl
    | case4 n r rest ih => exact ih

/-- Whoever watches a list of rows sees the rows that are pulled. -/
lemma shown_take_observe_ofRows (n : Nat) (rows : List ρ) :
    (((ofRows rows).observe o).take n).shown o = rows.take n := by
  cases n with
  | zero => rfl
  | succ n =>
    change (((Pulled.prepend (rows.map .row) fun _ => .ended).observe o).takeSucc n).shown o = _
    induction rows generalizing n with
    | nil => rfl
    | cons r rows ih =>
      cases n with
      | zero => simp [Pulled.prepend, Pulled.observe, Pulled.takeSucc, Pulled.shown_visit]
      | succ n => simp [Pulled.prepend, Pulled.observe, Pulled.takeSucc, Pulled.shown_visit, ih]

/-- Whoever waits for the first row has seen all that there is to see. -/
def Upfront (o : Observer) (flow : Flow ρ) : Prop := (flow.take 1).shown o = flow.shown o

lemma Upfront.shown_take {flow : Flow ρ} (h : flow.Upfront o) (k : Nat) :
    (flow.take (k + 1)).shown o = flow.shown o := by
  have hfirst : (flow.take 1).shown o <+: (flow.take (k + 1)).shown o := by
    have hprefix := shown_take_isPrefix (o := o) 1 (flow.take (k + 1))
    rwa [take_take, Nat.min_eq_right (Nat.succ_le_succ (Nat.zero_le k))] at hprefix
  rw [h] at hfirst
  exact (shown_take_isPrefix (k + 1) flow).eq_of_length_le hfirst.length_le

lemma upfront_rearrange (f : List ρ → List ρ) (flow : Flow ρ) : (flow.rearrange f).Upfront o :=
  Pulled.shown_takeSucc_rearrange f (flow.pull ())

end Flow

/-- Of the first `n` rows, and of no fewer, `f` makes `k` rows. -/
structure IsFewest (f : List ρ → List ρ) (k : Nat) (rows : List ρ) (n : Nat) : Prop where
  enough : k ≤ (f (rows.take n)).length
  fewest : ∀ i < n, (f (rows.take i)).length < k

/-- More rows behind only lead to more rows behind. -/
def Incremental (f : List ρ → List ρ) : Prop := ∀ xs ys, xs <+: ys → f xs <+: f ys

/-- A transform that makes of the rows what `f` does. To hand out `k` rows it pulls the fewest of
which `f` makes `k`, and shows `o` what they do. -/
structure PullsFewest (o : Observer) (f : List ρ → List ρ) (t : Transform ρ) : Prop where
  incremental : Incremental f
  rows : ∀ flow, (t flow).rows = f flow.rows
  shown : ∀ flow k, k ≤ (f flow.rows).length →
    ∃ n, IsFewest f k flow.rows n ∧ ((t flow).take k).shown o = (flow.take n).shown o

lemma Incremental.take_length {f : List ρ → List ρ} (hf : Incremental f) (rows : List ρ) (n : Nat) :
    (f rows).take (f (rows.take n)).length = f (rows.take n) :=
  (List.prefix_iff_eq_take.1 (hf _ _ (List.take_prefix n rows))).symm

namespace IsFewest

lemma zero (f : List ρ → List ρ) (rows : List ρ) : IsFewest f 0 rows 0 :=
  ⟨Nat.zero_le _, fun i hi => absurd hi (Nat.not_lt_zero i)⟩

lemma le_length {f : List ρ → List ρ} {k n : Nat} {rows : List ρ} (h : IsFewest f k rows n) :
    n ≤ rows.length := by
  refine Nat.le_of_not_lt fun hmore => ?_
  have hall := h.fewest rows.length (by omega)
  have henough := h.enough
  rw [List.take_length] at hall
  rw [List.take_of_length_le (by omega)] at henough
  omega

/-- The fewest rows of which `f` makes the fewest rows of which `g` makes `k` rows. -/
lemma comp {f g : List ρ → List ρ} (hf : Incremental f) (hg : Incremental g) {k m n : Nat}
    {rows : List ρ} (hm : IsFewest g k (f rows) m) (hn : IsFewest f m rows n) :
    IsFewest (fun rows => g (f rows)) k rows n := by
  refine ⟨?_, fun i hi => ?_⟩
  · have hprefix : (f rows).take m <+: f (rows.take n) := by
      rw [← hf.take_length]
      exact List.take_prefix_take_left hn.enough
    exact Nat.le_trans hm.enough (hg _ _ hprefix).length_le
  · rw [← hf.take_length]
    exact hm.fewest _ (hn.fewest i hi)

end IsFewest

namespace PullsFewest

variable {o : Observer}

lemma id : PullsFewest o (fun rows : List ρ => rows) (fun flow => flow) where
  incremental _ _ h := h
  rows _ := rfl
  shown flow k hk := by
    refine ⟨k, ⟨?_, fun i hi => ?_⟩, rfl⟩
    · exact Nat.le_of_eq (List.length_take_of_le hk).symm
    · rw [List.length_take]
      omega

lemma comp {f g : List ρ → List ρ} {t u : Transform ρ} (ht : PullsFewest o f t)
    (hu : PullsFewest o g u) :
    PullsFewest o (fun rows => g (f rows)) (fun flow => u (t flow)) where
  incremental xs ys h := hu.incremental _ _ (ht.incremental _ _ h)
  rows flow := by rw [hu.rows, ht.rows]
  shown flow k hk := by
    rw [← ht.rows] at hk
    obtain ⟨m, hm, hlast⟩ := hu.shown (t flow) k hk
    rw [ht.rows] at hm
    obtain ⟨n, hn, hfirst⟩ := ht.shown flow m hm.le_length
    exact ⟨n, .comp ht.incremental hu.incremental hm hn, hlast.trans hfirst⟩

end PullsFewest

/-- An operation that reads rows one by one. In a state it makes steps of a row, and comes to the
next state or stops. -/
structure Machine (ρ σ : Type) where
  start : Option σ
  emit : σ → ρ → List (Step ρ)
  next : σ → ρ → Option σ

namespace Machine

variable {σ : Type}

/-- The steps that the machine makes of a pull, from a state or once it has stopped. -/
def run (M : Machine ρ σ) : Option σ → Pulled ρ → Pulled ρ
  | none, _ => .ended
  | some _, .ended => .ended
  | some s, .step (.visit v) rest => .step (.visit v) fun _ => M.run (some s) (rest ())
  | some s, .step (.row r) rest => .prepend (M.emit s r) fun _ => M.run (M.next s r) (rest ())

def transform (M : Machine ρ σ) : Transform ρ := .through (M.run M.start)

/-- The rows that the machine makes of a list. -/
def outputs (M : Machine ρ σ) : Option σ → List ρ → List ρ
  | none, _ => []
  | some _, [] => []
  | some s, r :: rows => (M.emit s r).filterMap Step.row? ++ M.outputs (M.next s r) rows

@[simp] lemma run_none (M : Machine ρ σ) (p : Pulled ρ) : M.run none p = .ended := by
  cases p <;> rfl

@[simp] lemma outputs_none (M : Machine ρ σ) (rows : List ρ) : M.outputs none rows = [] := by
  cases rows <;> rfl

/-- The machine does not call `o`. -/
def Spares (M : Machine ρ σ) (o : Observer) : Prop :=
  ∀ s r v, .visit v ∈ M.emit s r → v.observer ≠ o

variable (M : Machine ρ σ) {o : Observer}

lemma rows_run (s : Option σ) (p : Pulled ρ) : (M.run s p).rows = M.outputs s p.rows := by
  fun_induction run M s p with
  | case1 p => exact (M.outputs_none p.rows).symm
  | case2 s => rfl
  | case3 s v rest ih => simpa using ih
  | case4 s r rest ih => rw [Pulled.rows_prepend, Pulled.rows_row, outputs, ih]

lemma outputs_isPrefix (s : Option σ) {xs ys : List ρ} (h : xs <+: ys) :
    M.outputs s xs <+: M.outputs s ys := by
  fun_induction outputs M s xs generalizing ys with
  | case1 xs => exact List.nil_prefix
  | case2 s => exact List.nil_prefix
  | case3 s r rows ih =>
    obtain ⟨rest, rfl⟩ := h
    rw [List.cons_append, outputs, List.prefix_append_right_inj]
    exact ih (List.prefix_append rows rest)

lemma shown_run_isPrefix (hM : M.Spares o) (s : Option σ) (p : Pulled ρ) :
    (M.run s p).shown o <+: p.shown o := by
  fun_induction run M s p with
  | case1 p => exact List.nil_prefix
  | case2 s => exact List.nil_prefix
  | case3 s v rest ih =>
    rw [Pulled.shown_visit, Pulled.shown_visit, List.prefix_append_right_inj]
    exact ih
  | case4 s r rest ih =>
    rw [Pulled.shown_prepend (hM s r), Pulled.shown_row]
    exact ih

/-- A row that goes in leads to the rows that the machine makes of it, and to those behind. -/
lemma isFewest_cons {s : σ} {r : ρ} {rows : List ρ} {k n : Nat}
    (h : IsFewest (M.outputs (M.next s r)) (k + 1) rows (n + 1)) :
    IsFewest (M.outputs (some s)) (((M.emit s r).filterMap Step.row?).length + k + 1) (r :: rows)
      (n + 2) := by
  refine ⟨?_, fun i hi => ?_⟩
  · have henough := h.enough
    rw [List.take_succ_cons, outputs, List.length_append]
    omega
  · cases i with
    | zero => exact Nat.succ_pos _
    | succ i =>
      have hfewest := h.fewest i (by omega)
      rw [List.take_succ_cons, outputs, List.length_append]
      omega

/-- The row that goes in is enough where the machine makes enough rows of it. -/
lemma isFewest_one {s : σ} {r : ρ} {rows : List ρ} {k : Nat}
    (h : k < ((M.emit s r).filterMap Step.row?).length) :
    IsFewest (M.outputs (some s)) (k + 1) (r :: rows) 1 := by
  refine ⟨?_, fun i hi => ?_⟩
  · rw [List.take_succ_cons, outputs, List.length_append]
    omega
  · obtain rfl : i = 0 := by omega
    exact Nat.succ_pos k

/-- Of the rows that come in, a consumer who pulls one row more sees the fewest that it takes. -/
lemma shown_takeSucc_run (hM : M.Spares o) (s : Option σ) (p : Pulled ρ) {k : Nat}
    (hk : k < (M.outputs s p.rows).length) :
    ∃ n, IsFewest (M.outputs s) (k + 1) p.rows (n + 1) ∧
      ((M.run s p).takeSucc k).shown o = (p.takeSucc n).shown o := by
  fun_induction run M s p generalizing k with
  | case1 p => simp at hk
  | case2 s => cases hk
  | case3 s v rest ih =>
    rw [Pulled.rows_visit] at hk ⊢
    obtain ⟨n, hn, hshown⟩ := ih hk
    refine ⟨n, hn, ?_⟩
    rw [Pulled.takeSucc, Pulled.takeSucc, Pulled.shown_visit, Pulled.shown_visit, hshown]
  | case4 s r rest ih =>
    rw [Pulled.rows_row, outputs, List.length_append] at hk
    rw [Pulled.rows_row]
    by_cases hmade : k < ((M.emit s r).filterMap Step.row?).length
    · refine ⟨0, M.isFewest_one hmade, ?_⟩
      rw [Pulled.shown_takeSucc_prepend_of_lt (hM s r) _ hmade]
      simp [Pulled.takeSucc]
    · obtain ⟨j, rfl⟩ := Nat.exists_eq_add_of_le (Nat.le_of_not_lt hmade)
      obtain ⟨n, hn, hshown⟩ := ih (Nat.lt_of_add_lt_add_left hk)
      refine ⟨n + 1, M.isFewest_cons hn, ?_⟩
      rw [Pulled.takeSucc_prepend, Pulled.shown_prepend (hM s r), hshown, Pulled.takeSucc,
        Pulled.shown_row]

theorem pullsFewest (hM : M.Spares o) : PullsFewest o (M.outputs M.start) M.transform where
  incremental xs ys h := M.outputs_isPrefix M.start h
  rows flow := M.rows_run M.start (flow.pull ())
  shown flow k hk := by
    cases k with
    | zero => exact ⟨0, .zero _ _, rfl⟩
    | succ k =>
      obtain ⟨n, hn, hshown⟩ := M.shown_takeSucc_run hM M.start (flow.pull ()) hk
      exact ⟨n + 1, hn, hshown⟩

/-- A machine that has not stopped does not withhold what comes before the first row. -/
lemma shown_takeSucc_run_of_upfront (hM : M.Spares o) (s : σ) {p : Pulled ρ}
    (hp : (p.takeSucc 0).shown o = p.shown o) :
    ((M.run (some s) p).takeSucc 0).shown o = p.shown o := by
  induction p with
  | ended => rfl
  | step step rest ih =>
    cases step with
    | visit v =>
      rw [Pulled.takeSucc, Pulled.shown_visit, Pulled.shown_visit, List.append_right_inj] at hp
      rw [run, Pulled.takeSucc, Pulled.shown_visit, Pulled.shown_visit, ih () hp]
    | row r =>
      -- behind the first row there is nothing to see, for the machine either
      rw [Pulled.takeSucc, Pulled.shown_row, Pulled.shown_ended] at hp
      have hrun := M.shown_run_isPrefix hM (some s) (.step (.row r) rest)
      have hfirst := (Pulled.shown_takeSucc_isPrefix 0 _).trans hrun
      rw [← hp] at hfirst ⊢
      exact List.prefix_nil.1 hfirst

/-- What the machine makes of flows is what `t` makes of them, and it does not call `o`. -/
structure Performs (o : Observer) (t : Transform ρ) : Prop where
  spares : M.Spares o
  eq_transform : ∀ flow, t flow = M.transform flow

section Performs

variable {M} {t : Transform ρ} (h : M.Performs o t)

include h

lemma Performs.pullsFewest {f : List ρ → List ρ} (hf : ∀ flow, (t flow).rows = f flow.rows) :
    PullsFewest o f t := by
  have hmachine := M.pullsFewest h.spares
  obtain rfl : t = M.transform := funext h.eq_transform
  have houtputs : M.outputs M.start = f := by
    funext rows
    have hrows := (hmachine.rows (.ofRows rows)).symm.trans (hf (.ofRows rows))
    rwa [Flow.rows_ofRows] at hrows
  rwa [houtputs] at hmachine

lemma Performs.shown_isPrefix (flow : Flow ρ) : (t flow).shown o <+: flow.shown o := by
  rw [h.eq_transform]
  exact M.shown_run_isPrefix h.spares M.start (flow.pull ())

lemma Performs.upfront (hstart : M.start ≠ none) {flow : Flow ρ} (hflow : flow.Upfront o) :
    (t flow).Upfront o ∧ (t flow).shown o = flow.shown o := by
  obtain ⟨s, hs⟩ := Option.ne_none_iff_exists'.1 hstart
  have hfirst : ((t flow).take 1).shown o = flow.shown o := by
    rw [h.eq_transform]
    change ((M.run M.start (flow.pull ())).takeSucc 0).shown o = _
    rw [hs]
    exact M.shown_takeSucc_run_of_upfront h.spares s hflow
  have hall : (t flow).shown o = flow.shown o := by
    have hprefix := Flow.shown_take_isPrefix (o := o) 1 (t flow)
    rw [hfirst] at hprefix
    exact (h.shown_isPrefix flow).eq_of_length_le hprefix.length_le
  exact ⟨hfirst.trans hall.symm, hall⟩

end Performs

/-- Makes the same of each row, whatever came before. -/
def each (f : ρ → List (Step ρ)) : Machine ρ Unit := ⟨some (), fun _ => f, fun _ _ => some ()⟩

/-- Hands out rows as long as they have `t`. -/
def takeWhile (t : ρ → Bool) : Machine ρ Unit where
  start := some ()
  emit _ r := if t r then [.row r] else []
  next _ r := if t r then some () else none

/-- Stops behind `n` rows; a state counts the rows behind the next one. -/
def limit (n : Nat) : Machine ρ Nat where
  start := match n with | 0 => none | n + 1 => some n
  emit _ r := [.row r]
  next m _ := match m with | 0 => none | m + 1 => some m

/-- Withholds `n` rows; a state counts those to come. -/
def skip (n : Nat) : Machine ρ Nat where
  start := some n
  emit m r := if m = 0 then [.row r] else []
  next m _ := some (m - 1)

/-- Withholds the rows before the first one without `t`; a state tells whether that is still to
come. -/
def dropWhile (t : ρ → Bool) : Machine ρ Bool where
  start := some true
  emit dropping r := if dropping && t r then [] else [.row r]
  next dropping r := some (dropping && t r)

/-- Hands out the first row of each key; a state is a set of keys. -/
def distinct {κ : Type} [BEq κ] [Hashable κ] (key : ρ → κ) :
    Machine ρ (Std.HashSet κ) where
  start := some ∅
  emit seen r := if seen.contains (key r) then [] else [.row r]
  next seen r := some (if seen.contains (key r) then seen else seen.insert (key r))

/-- What answers pulls as the machine does in each of its states is the machine. -/
lemma eq_run {M : Machine ρ σ} {g : σ → Pulled ρ → Pulled ρ} (hended : ∀ s, g s .ended = .ended)
    (hvisit : ∀ s v rest, g s (.step (.visit v) rest) = .step (.visit v) fun _ => g s (rest ()))
    (hrow : ∀ s r rest, g s (.step (.row r) rest) = .prepend (M.emit s r) fun _ =>
      (M.next s r).elim .ended fun s' => g s' (rest ()))
    (s : σ) (p : Pulled ρ) : g s p = M.run (some s) p := by
  induction p generalizing s with
  | ended => exact hended s
  | step step rest ih =>
    cases step with
    | visit v => simp only [hvisit, run, ih]
    | row r =>
      rw [hrow, run]
      cases M.next s r with
      | none => simp
      | some s' => simp only [Option.elim_some, ih]

section Performs

variable {o : Observer}

lemma performs_filter (t : ρ → Bool) :
    (each fun r => if t r then [.row r] else []).Performs o (Flow.filter t) := by
  refine ⟨fun _ _ _ hv => ?_, fun flow => Flow.ext_pull ?_⟩
  · simp [each] at hv
  · refine eq_run (g := fun _ => Pulled.filter t) (fun _ => rfl) (fun _ _ _ => rfl)
      (fun _ r rest => ?_) () (flow.pull ())
    cases h : t r <;> simp [Pulled.filter, each, Pulled.prepend, h]

lemma performs_map (f : ρ → ρ) : (each fun r => [.row (f r)]).Performs o (Flow.map f) := by
  refine ⟨fun _ _ _ hv => ?_, fun flow => Flow.ext_pull ?_⟩
  · simp [each] at hv
  · exact eq_run (g := fun _ => Pulled.map f) (fun _ => rfl) (fun _ _ _ => rfl)
      (fun _ _ _ => rfl) () (flow.pull ())

lemma performs_flatMap (f : ρ → List ρ) :
    (each fun r => (f r).map .row).Performs o (Flow.flatMap f) := by
  refine ⟨fun _ _ _ hv => ?_, fun flow => Flow.ext_pull ?_⟩
  · simp [each] at hv
  · refine eq_run (g := fun _ => Pulled.flatMap f) (fun _ => rfl) (fun _ _ _ => rfl)
      (fun _ r rest => ?_) () (flow.pull ())
    cases h : f r <;> simp [Pulled.flatMap, each, Pulled.prepend, h]

lemma performs_observe {o' : Observer} (hne : o' ≠ o) :
    (each fun r : ρ => [.visit ⟨o', r⟩, .row r]).Performs o (Flow.observe o') := by
  refine ⟨fun _ r v hv => ?_, fun flow => Flow.ext_pull ?_⟩
  · obtain rfl : v = ⟨o', r⟩ := by simpa [each] using hv
    exact hne
  · exact eq_run (g := fun _ => Pulled.observe o') (fun _ => rfl) (fun _ _ _ => rfl)
      (fun _ _ _ => rfl) () (flow.pull ())

lemma performs_takeWhile (t : ρ → Bool) : (takeWhile t).Performs o (Flow.takeWhile t) := by
  refine ⟨fun _ _ _ hv => ?_, fun flow => Flow.ext_pull ?_⟩
  · simp [takeWhile] at hv
  · refine eq_run (g := fun _ => Pulled.takeWhile t) (fun _ => rfl) (fun _ _ _ => rfl)
      (fun _ r rest => ?_) () (flow.pull ())
    cases h : t r <;> simp [Pulled.takeWhile, takeWhile, Pulled.prepend, h]

lemma performs_take (n : Nat) : (limit n).Performs o (Flow.take (ρ := ρ) n) := by
  refine ⟨fun _ _ _ hv => ?_, fun flow => Flow.ext_pull ?_⟩
  · simp [limit] at hv
  · cases n with
    | zero => exact ((limit 0).run_none (flow.pull ())).symm
    | succ m =>
      refine eq_run (g := Pulled.takeSucc) (fun m => ?_) (fun m _ _ => ?_) (fun m _ _ => ?_) m
        (flow.pull ())
      · cases m <;> rfl
      · cases m <;> rfl
      · cases m <;> rfl

lemma performs_drop (n : Nat) : (skip n).Performs o (Flow.drop (ρ := ρ) n) := by
  refine ⟨fun _ _ _ hv => ?_, fun flow => Flow.ext_pull ?_⟩
  · simp [skip] at hv
  · refine eq_run (g := Pulled.drop) (fun m => ?_) (fun m _ _ => ?_) (fun m _ _ => ?_) n
      (flow.pull ())
    · cases m <;> rfl
    · cases m <;> rfl
    · cases m with
      -- what has nothing left to withhold hands on what comes
      | zero => simp [Pulled.drop, skip, Pulled.prepend, Pulled.drop_zero]
      | succ m => rfl

lemma performs_dropWhile (t : ρ → Bool) : (dropWhile t).Performs o (Flow.dropWhile t) := by
  refine ⟨fun _ _ _ hv => ?_, fun flow => Flow.ext_pull ?_⟩
  · simp [dropWhile] at hv
  · refine eq_run (g := fun dropping p => if dropping then p.dropWhile t else p)
      (fun dropping => ?_) (fun dropping _ _ => ?_) (fun dropping r rest => ?_) true
      (flow.pull ())
    · cases dropping <;> rfl
    · cases dropping <;> rfl
    · cases dropping <;> cases h : t r <;>
        simp [Pulled.dropWhile, dropWhile, Pulled.prepend, h]

lemma performs_distinct {κ : Type} [BEq κ] [Hashable κ] (key : ρ → κ) :
    (distinct key).Performs o (Flow.distinct key) := by
  refine ⟨fun _ _ _ hv => ?_, fun flow => Flow.ext_pull ?_⟩
  · simp [distinct] at hv
  · refine eq_run (g := Pulled.distinctFrom key) (fun _ => rfl) (fun _ _ _ => rfl)
      (fun seen r rest => ?_) ∅ (flow.pull ())
    cases h : seen.contains (key r) <;>
      simp only [Pulled.distinctFrom, distinct, Pulled.prepend, h, if_true,
        Bool.false_eq_true, if_false, Option.elim_some]

end Performs
end Machine
end Pushdown
