import Mathlib.Tactic.Lemma
import Pushdown.Flow.Rows

/-!
# Laws of flows

What the operations on flows do to visits, and when two of them in a row are one. A law that holds
of flows and not only of their rows says that a consumer sees the same visits, however far the flow
is pulled.
-/

namespace Pushdown

namespace Pulled

variable {ρ : Type}

@[simp] lemma visits_ended : (ended : Pulled ρ).visits = [] := rfl

@[simp] lemma visits_visit (v : Visit ρ) (rest : Unit → Pulled ρ) :
    (step (.visit v) rest).visits = v :: (rest ()).visits :=
  findings_step Step.visit? (.visit v) rest

@[simp] lemma visits_row (r : ρ) (rest : Unit → Pulled ρ) :
    (step (.row r) rest).visits = (rest ()).visits :=
  findings_step Step.visit? (.row r) rest

@[simp] lemma visits_prepend_row (rs : List ρ) (later : Unit → Pulled ρ) :
    (prepend (rs.map .row) later).visits = (later ()).visits := by
  induction rs with
  | nil => rfl
  | cons r rs ih => simp [prepend, ih]

lemma visits_filter (t : ρ → Bool) (p : Pulled ρ) : (p.filter t).visits = p.visits := by
  fun_induction filter t p with
  | case1 => rfl
  | case2 v rest ih => simp [ih]
  | case3 r rest h ih => simp [ih]
  | case4 r rest h ih => simp [ih]

lemma visits_drop (n : Nat) (p : Pulled ρ) : (p.drop n).visits = p.visits := by
  fun_induction drop n p with
  | case1 n => rfl
  | case2 n v rest ih => simp [ih]
  | case3 r rest => simp
  | case4 n r rest ih => simp [ih]

lemma visits_takeSucc_sublist (n : Nat) (p : Pulled ρ) :
    (p.takeSucc n).visits.Sublist p.visits := by
  fun_induction takeSucc n p with
  | case1 n => simp
  | case2 n v rest ih => simpa using ih
  | case3 r rest => simp
  | case4 n r rest ih => simpa using ih

lemma visits_map (f : ρ → ρ) (p : Pulled ρ) : (p.map f).visits = p.visits := by
  fun_induction map f p with
  | case1 => rfl
  | case2 v rest ih => simp [ih]
  | case3 r rest ih => simp [ih]

lemma visits_flatMap (f : ρ → List ρ) (p : Pulled ρ) : (p.flatMap f).visits = p.visits := by
  fun_induction flatMap f p with
  | case1 => rfl
  | case2 v rest ih => simp [ih]
  | case3 r rest h ih => simp [ih]
  | case4 r rest a as h ih => simp [ih]

lemma visits_takeWhile_sublist (t : ρ → Bool) (p : Pulled ρ) :
    (p.takeWhile t).visits.Sublist p.visits := by
  fun_induction takeWhile t p with
  | case1 => simp
  | case2 v rest ih => simpa using ih
  | case3 r rest h ih => simpa using ih
  | case4 r rest h => simp

lemma visits_dropWhile (t : ρ → Bool) (p : Pulled ρ) : (p.dropWhile t).visits = p.visits := by
  fun_induction dropWhile t p with
  | case1 => rfl
  | case2 v rest ih => simp [ih]
  | case3 r rest h ih => simp [ih]
  | case4 r rest h => simp

lemma visits_distinctFrom {κ : Type} [BEq κ] [Hashable κ] (key : ρ → κ) (seen : Std.HashSet κ)
    (p : Pulled ρ) : (p.distinctFrom key seen).visits = p.visits := by
  fun_induction distinctFrom key seen p with
  | case1 => rfl
  | case2 seen v rest ih => simp [ih]
  | case3 seen r rest h ih => simp [ih]
  | case4 seen r rest h ih => simp [ih]

lemma steps_rearrange (f : List ρ → List ρ) (p : Pulled ρ) :
    (p.rearrange f).steps = p.visits.map .visit ++ (f p.rows).map .row := by
  simp [rearrange, visits, rows, findings_eq]

lemma visits_rearrange (f : List ρ → List ρ) (p : Pulled ρ) :
    (p.rearrange f).visits = p.visits := by
  rw [visits, findings_eq, steps_rearrange]
  simp [Function.comp_def, Step.visit?]

/-- A visit is one from before, or one by the observer. -/
lemma mem_visits_observe {o : Observer} {p : Pulled ρ} {v : Visit ρ}
    (h : v ∈ (p.observe o).visits) : v.observer = o ∨ v ∈ p.visits := by
  fun_induction observe o p with
  | case1 => exact Or.inr h
  | case2 w rest ih =>
    rw [visits_visit] at h ⊢
    rcases List.mem_cons.1 h with rfl | h
    · exact Or.inr List.mem_cons_self
    · exact (ih h).imp_right (List.mem_cons_of_mem w)
  | case3 r rest ih =>
    rw [visits_visit, visits_row] at h
    rw [visits_row]
    rcases List.mem_cons.1 h with rfl | h
    · exact Or.inl rfl
    · exact ih h

/-- An observer that nobody called before is called once for each row, in order. -/
lemma visits_observe_self {o : Observer} {p : Pulled ρ} (h : ∀ v ∈ p.visits, v.observer ≠ o) :
    ((p.observe o).visits.filter fun v => v.observer = o).map Visit.row = p.rows := by
  fun_induction observe o p with
  | case1 => rfl
  | case2 v rest ih => simp_all
  | case3 r rest ih => simp_all

lemma eq_prepend_rows {p : Pulled ρ} (h : p.visits = []) :
    p = prepend (p.rows.map .row) fun _ => ended := by
  induction p with
  | ended => rfl
  | step s rest ih =>
    cases s with
    | visit v => simp at h
    | row r =>
      rw [visits_row] at h
      rw [rows_row, List.map_cons, prepend, ← ih () h]

lemma filter_filter (t u : ρ → Bool) (p : Pulled ρ) :
    (p.filter t).filter u = p.filter fun r => t r && u r := by
  fun_induction filter t p with
  | case1 => rfl
  | case2 v rest ih => simp [filter, ih]
  | case3 r rest h ih => simp [filter, h, ih]
  | case4 r rest h ih => simp [filter, h, ih]

lemma filter_eq_self {t : ρ → Bool} {p : Pulled ρ} (h : ∀ r ∈ p.rows, t r = true) :
    p.filter t = p := by
  fun_induction filter t p with
  | case1 => rfl
  | case2 v rest ih => simp_all
  | case3 r rest hr ih => simp_all
  | case4 r rest hr ih => simp_all

lemma drop_drop (m n : Nat) (p : Pulled ρ) : (p.drop m).drop n = p.drop (m + n) := by
  fun_induction drop m p with
  | case1 m => simp [drop]
  | case2 m v rest ih => simp [drop, ih]
  | case3 r rest => rw [Nat.zero_add]
  | case4 m r rest ih => rw [ih, Nat.succ_add, drop]

lemma drop_zero (p : Pulled ρ) : p.drop 0 = p := by
  induction p with
  | ended => rfl
  | step s rest ih =>
    cases s with
    | visit v => simp [drop, ih]
    | row r => rfl

lemma drop_eq_of_length_le {m n : Nat} {p : Pulled ρ} (hm : p.rows.length ≤ m)
    (hn : p.rows.length ≤ n) : p.drop m = p.drop n := by
  fun_induction drop m p generalizing n with
  | case1 m => simp [drop]
  | case2 m v rest ih =>
    rw [rows_visit] at hm hn
    rw [drop, ih hm hn]
  | case3 r rest => simp at hm
  | case4 m r rest ih =>
    cases n with
    | zero => simp at hn
    | succ n =>
      rw [rows_row, List.length_cons] at hm hn
      have hrest : (rest ()).rows.length ≤ n := by omega
      rw [drop, ih (by omega) hrest]

lemma takeSucc_takeSucc (m n : Nat) (p : Pulled ρ) :
    (p.takeSucc m).takeSucc n = p.takeSucc (min m n) := by
  fun_induction takeSucc m p generalizing n with
  | case1 m => simp [takeSucc]
  | case2 m v rest ih => simp [takeSucc, ih]
  | case3 r rest => cases n <;> simp [takeSucc]
  | case4 m r rest ih =>
    cases n with
    | zero => simp [takeSucc]
    | succ n => rw [takeSucc, Nat.succ_min_succ, takeSucc, ih]

lemma takeSucc_eq_self {n : Nat} {p : Pulled ρ} (h : p.rows.length ≤ n) : p.takeSucc n = p := by
  fun_induction takeSucc n p with
  | case1 n => rfl
  | case2 n v rest ih => simp_all
  | case3 r rest => simp at h
  | case4 n r rest ih => simp_all

lemma rearrange_rearrange (f g : List ρ → List ρ) (p : Pulled ρ) :
    (p.rearrange f).rearrange g = p.rearrange fun rows => g (f rows) := by
  apply eq_of_steps_eq
  rw [steps_rearrange, steps_rearrange, visits_rearrange, rows_rearrange]

/-- Keys that a second DISTINCT has seen are keys that the first one has seen. -/
lemma distinctFrom_distinctFrom {κ : Type} [BEq κ] [Hashable κ] [LawfulBEq κ] (key : ρ → κ)
    {seen seen' : Std.HashSet κ} (h : ∀ k, seen'.contains k → seen.contains k) (p : Pulled ρ) :
    (p.distinctFrom key seen).distinctFrom key seen' = p.distinctFrom key seen := by
  fun_induction distinctFrom key seen p generalizing seen' with
  | case1 => rfl
  | case2 seen v rest ih => simp [distinctFrom, ih h]
  | case3 seen r rest hr ih => exact ih h
  | case4 seen r rest hr ih =>
    have hnew : seen'.contains (key r) = false := by
      cases hc : seen'.contains (key r) with
      | false => rfl
      | true => exact absurd (h _ hc) hr
    have hmore : ∀ k, (seen'.insert (key r)).contains k → (seen.insert (key r)).contains k := by
      intro k hk
      rw [Std.HashSet.contains_insert] at hk ⊢
      rcases Bool.or_eq_true_iff.1 hk with hk | hk
      · simp [hk]
      · simp [h k hk]
    simp [distinctFrom, hnew, ih hmore]

lemma any_rows_upTo (t : ρ → Bool) (p : Pulled ρ) : (p.upTo t).rows.any t = p.rows.any t := by
  fun_induction upTo t p with
  | case1 => rfl
  | case2 v rest ih => simpa using ih
  | case3 r rest ih => cases h : t r <;> simp_all

lemma all_rows_upTo (t : ρ → Bool) (p : Pulled ρ) :
    ((p.upTo fun r => !t r).rows.all t) = p.rows.all t := by
  induction p with
  | ended => rfl
  | step s rest ih =>
    cases s with
    | visit v => simpa [upTo] using ih ()
    | row r => cases h : t r <;> simp_all [upTo]

/-- A search finds the first match by pulling as far as a filter does that is asked for one row. -/
lemma visits_takeSucc_filter (t : ρ → Bool) (p : Pulled ρ) :
    ((p.filter t).takeSucc 0).visits = (p.upTo t).visits := by
  induction p with
  | ended => rfl
  | step s rest ih =>
    cases s with
    | visit v => simpa [filter, takeSucc, upTo] using ih ()
    | row r => cases h : t r <;> simp_all [filter, takeSucc, upTo]

lemma visits_upTo_takeSucc_filter (t : ρ → Bool) (p : Pulled ρ) :
    (((p.filter t).takeSucc 0).upTo t).visits = ((p.filter t).takeSucc 0).visits := by
  induction p with
  | ended => rfl
  | step s rest ih =>
    cases s with
    | visit v => simpa [filter, takeSucc, upTo] using ih ()
    | row r => cases h : t r <;> simp_all [filter, takeSucc, upTo]

end Pulled

namespace Flow

variable {ρ : Type}

lemma ext_pull {a b : Flow ρ} (h : a.pull () = b.pull ()) : a = b :=
  congrArg Flow.mk (funext fun _ => h)

@[simp] lemma visits_ofRows (rows : List ρ) : (ofRows rows).visits = [] := by
  simp [ofRows, ofSteps, visits]

@[simp] lemma visits_filter (t : ρ → Bool) (flow : Flow ρ) :
    (flow.filter t).visits = flow.visits :=
  Pulled.visits_filter t (flow.pull ())

@[simp] lemma visits_drop (n : Nat) (flow : Flow ρ) : (flow.drop n).visits = flow.visits :=
  Pulled.visits_drop n (flow.pull ())

lemma visits_take_sublist (n : Nat) (flow : Flow ρ) :
    (flow.take n).visits.Sublist flow.visits := by
  cases n with
  | zero => exact List.nil_sublist _
  | succ n => exact Pulled.visits_takeSucc_sublist n (flow.pull ())

@[simp] lemma visits_map (f : ρ → ρ) (flow : Flow ρ) : (flow.map f).visits = flow.visits :=
  Pulled.visits_map f (flow.pull ())

@[simp] lemma visits_flatMap (f : ρ → List ρ) (flow : Flow ρ) :
    (flow.flatMap f).visits = flow.visits :=
  Pulled.visits_flatMap f (flow.pull ())

lemma visits_takeWhile_sublist (t : ρ → Bool) (flow : Flow ρ) :
    (flow.takeWhile t).visits.Sublist flow.visits :=
  Pulled.visits_takeWhile_sublist t (flow.pull ())

@[simp] lemma visits_dropWhile (t : ρ → Bool) (flow : Flow ρ) :
    (flow.dropWhile t).visits = flow.visits :=
  Pulled.visits_dropWhile t (flow.pull ())

@[simp] lemma visits_distinct {κ : Type} [BEq κ] [Hashable κ] (key : ρ → κ) (flow : Flow ρ) :
    (flow.distinct key).visits = flow.visits :=
  Pulled.visits_distinctFrom key ∅ (flow.pull ())

@[simp] lemma visits_rearrange (f : List ρ → List ρ) (flow : Flow ρ) :
    (flow.rearrange f).visits = flow.visits :=
  Pulled.visits_rearrange f (flow.pull ())

/-- A flow in which nothing is visited is a list of rows. -/
lemma eq_ofRows {flow : Flow ρ} (h : flow.visits = []) : flow = ofRows flow.rows :=
  ext_pull (Pulled.eq_prepend_rows h)

lemma eq_ofRows_of_rows {flow : Flow ρ} {rows : List ρ} (hvisits : flow.visits = [])
    (hrows : flow.rows = rows) : flow = ofRows rows := by
  rw [eq_ofRows hvisits, hrows]

lemma filter_ofRows (t : ρ → Bool) (rows : List ρ) :
    (ofRows rows).filter t = ofRows (rows.filter t) := by
  exact eq_ofRows_of_rows (by simp) (by simp)

lemma drop_ofRows (n : Nat) (rows : List ρ) : (ofRows rows).drop n = ofRows (rows.drop n) := by
  exact eq_ofRows_of_rows (by simp) (by simp)

lemma take_ofRows (n : Nat) (rows : List ρ) : (ofRows rows).take n = ofRows (rows.take n) := by
  have hquiet : ((ofRows rows).take n).visits = [] :=
    List.eq_nil_of_sublist_nil (by simpa using visits_take_sublist n (ofRows rows))
  exact eq_ofRows_of_rows hquiet (by simp)

lemma distinct_ofRows {κ : Type} [BEq κ] [Hashable κ] (key : ρ → κ) (rows : List ρ) :
    (ofRows rows).distinct key = ofRows (firsts key rows) := by
  exact eq_ofRows_of_rows (by simp) (by simp)

lemma rearrange_ofRows (f : List ρ → List ρ) (rows : List ρ) :
    (ofRows rows).rearrange f = ofRows (f rows) := by
  exact eq_ofRows_of_rows (by simp) (by simp)

lemma filter_filter (t u : ρ → Bool) (flow : Flow ρ) :
    (flow.filter t).filter u = flow.filter fun r => t r && u r :=
  ext_pull (Pulled.filter_filter t u (flow.pull ()))

lemma filter_eq_self {t : ρ → Bool} {flow : Flow ρ} (h : ∀ r ∈ flow.rows, t r = true) :
    flow.filter t = flow :=
  ext_pull (Pulled.filter_eq_self h)

lemma drop_drop (m n : Nat) (flow : Flow ρ) : (flow.drop m).drop n = flow.drop (m + n) :=
  ext_pull (Pulled.drop_drop m n (flow.pull ()))

@[simp] lemma drop_zero (flow : Flow ρ) : flow.drop 0 = flow :=
  ext_pull (Pulled.drop_zero (flow.pull ()))

lemma drop_eq_of_length_le {m n : Nat} {flow : Flow ρ} (hm : flow.rows.length ≤ m)
    (hn : flow.rows.length ≤ n) : flow.drop m = flow.drop n :=
  ext_pull (Pulled.drop_eq_of_length_le hm hn)

lemma take_take (m n : Nat) (flow : Flow ρ) :
    (flow.take m).take n = flow.take (min m n) := by
  cases m with
  | zero =>
    rw [Nat.zero_min]
    cases n <;> rfl
  | succ m =>
    cases n with
    | zero => rfl
    | succ n =>
      rw [Nat.succ_min_succ]
      exact ext_pull (Pulled.takeSucc_takeSucc m n (flow.pull ()))

lemma take_eq_self {n : Nat} {flow : Flow ρ} (h : flow.rows.length < n) : flow.take n = flow := by
  cases n with
  | zero => exact absurd h (Nat.not_lt_zero _)
  | succ n => exact ext_pull (Pulled.takeSucc_eq_self (Nat.le_of_lt_succ h))

lemma rearrange_rearrange (f g : List ρ → List ρ) (flow : Flow ρ) :
    (flow.rearrange f).rearrange g = flow.rearrange fun rows => g (f rows) :=
  ext_pull (Pulled.rearrange_rearrange f g (flow.pull ()))

lemma distinct_distinct {κ : Type} [BEq κ] [Hashable κ] [LawfulBEq κ] (key : ρ → κ)
    (flow : Flow ρ) : (flow.distinct key).distinct key = flow.distinct key :=
  ext_pull (Pulled.distinctFrom_distinctFrom key (fun _ h => h) (flow.pull ()))

lemma any_rows_upTo (t : ρ → Bool) (flow : Flow ρ) :
    (flow.upTo t).rows.any t = flow.rows.any t :=
  Pulled.any_rows_upTo t (flow.pull ())

lemma all_rows_upTo (t : ρ → Bool) (flow : Flow ρ) :
    ((flow.upTo fun r => !t r).rows.all t) = flow.rows.all t :=
  Pulled.all_rows_upTo t (flow.pull ())

lemma visits_upTo_take_filter (t : ρ → Bool) (flow : Flow ρ) :
    (((flow.filter t).take 1).upTo t).visits = (flow.upTo t).visits :=
  (Pulled.visits_upTo_takeSucc_filter t (flow.pull ())).trans
    (Pulled.visits_takeSucc_filter t (flow.pull ()))

end Flow
end Pushdown
