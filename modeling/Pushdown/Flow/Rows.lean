import Pushdown.Data.Distinct
import Pushdown.Flow.Operations

/-! # Rows of flows

What the operations on flows do to the rows that are handed out. Each of them acts on the rows as
the list operation of its name does on a list, whatever visits stand between them.
-/

namespace Pushdown

namespace Pulled

variable {ρ : Type}

@[simp]
theorem rows_ended : (ended : Pulled ρ).rows = [] := rfl

@[simp]
theorem rows_visit (v : Visit ρ) (rest : Unit → Pulled ρ) :
    (step (.visit v) rest).rows = (rest ()).rows :=
  findings_step Step.row? (.visit v) rest

@[simp]
theorem rows_row (r : ρ) (rest : Unit → Pulled ρ) :
    (step (.row r) rest).rows = r :: (rest ()).rows :=
  findings_step Step.row? (.row r) rest

@[simp]
theorem rows_prepend_row (rs : List ρ) (later : Unit → Pulled ρ) :
    (prepend (rs.map .row) later).rows = rs ++ (later ()).rows := by
  induction rs with
  | nil => rfl
  | cons r rs ih => simp [prepend, ih]

@[simp]
theorem rows_prepend_visit (vs : List (Visit ρ)) (later : Unit → Pulled ρ) :
    (prepend (vs.map .visit) later).rows = (later ()).rows := by
  induction vs with
  | nil => rfl
  | cons v vs ih => simp [prepend, ih]

theorem rows_takeSucc (n : Nat) (p : Pulled ρ) : (p.takeSucc n).rows = p.rows.take (n + 1) := by
  fun_induction takeSucc n p with
  | case1 n => rfl
  | case2 n v rest ih => simpa using ih
  | case3 r rest => simp
  | case4 n r rest ih => simp [ih]

theorem rows_restSucc (n : Nat) (p : Pulled ρ) : (p.restSucc n).rows = p.rows.drop (n + 1) := by
  fun_induction restSucc n p with
  | case1 n => rfl
  | case2 n v rest ih => simpa using ih
  | case3 r rest => simp [Flow.rows]
  | case4 n r rest ih => simp [ih]

theorem rows_drop (n : Nat) (p : Pulled ρ) : (p.drop n).rows = p.rows.drop n := by
  fun_induction drop n p with
  | case1 n => simp
  | case2 n v rest ih => simpa using ih
  | case3 r rest => simp
  | case4 n r rest ih => simp [ih]

theorem rows_filter (t : ρ → Bool) (p : Pulled ρ) : (p.filter t).rows = p.rows.filter t := by
  fun_induction filter t p with
  | case1 => rfl
  | case2 v rest ih => simpa using ih
  | case3 r rest h ih => simp [h, ih]
  | case4 r rest h ih => simp [h, ih]

theorem rows_map (f : ρ → ρ) (p : Pulled ρ) : (p.map f).rows = p.rows.map f := by
  fun_induction map f p with
  | case1 => rfl
  | case2 v rest ih => simpa using ih
  | case3 r rest ih => simp [ih]

theorem rows_flatMap (f : ρ → List ρ) (p : Pulled ρ) :
    (p.flatMap f).rows = p.rows.flatMap f := by
  fun_induction flatMap f p with
  | case1 => rfl
  | case2 v rest ih => simpa using ih
  | case3 r rest h ih => simp [h, ih]
  | case4 r rest a as h ih => simp [h, ih]

theorem rows_observe (o : Observer) (p : Pulled ρ) : (p.observe o).rows = p.rows := by
  fun_induction observe o p with
  | case1 => rfl
  | case2 v rest ih => simpa using ih
  | case3 r rest ih => simp [ih]

theorem rows_takeWhile (t : ρ → Bool) (p : Pulled ρ) :
    (p.takeWhile t).rows = p.rows.takeWhile t := by
  fun_induction takeWhile t p with
  | case1 => rfl
  | case2 v rest ih => simpa using ih
  | case3 r rest h ih => simp [h, ih]
  | case4 r rest h => simp [h]

theorem rows_dropWhile (t : ρ → Bool) (p : Pulled ρ) :
    (p.dropWhile t).rows = p.rows.dropWhile t := by
  fun_induction dropWhile t p with
  | case1 => rfl
  | case2 v rest ih => simpa using ih
  | case3 r rest h ih => simp [h, ih]
  | case4 r rest h => simp [h]

theorem rows_distinctFrom {κ : Type} [BEq κ] [Hashable κ] (key : ρ → κ) (seen : Std.HashSet κ)
    (p : Pulled ρ) : (p.distinctFrom key seen).rows = firstsAfter key seen p.rows := by
  fun_induction distinctFrom key seen p with
  | case1 => rfl
  | case2 seen v rest ih => simpa using ih
  | case3 seen r rest h ih => simp [firstsAfter, h, ih]
  | case4 seen r rest h ih => simp [firstsAfter, h, ih]

theorem rows_rearrange (f : List ρ → List ρ) (p : Pulled ρ) :
    (p.rearrange f).rows = f p.rows := by
  unfold rearrange
  rw [rows_prepend_visit, rows_prepend_row, ← findings_eq]
  exact List.append_nil _

/-- Taking rows and then the flow behind them, a consumer pulls every step once. -/
theorem takeSucc_append_restSucc (n : Nat) (p : Pulled ρ) :
    (p.takeSucc n).steps ++ (p.restSucc n).steps = p.steps := by
  fun_induction takeSucc n p with
  | case1 n => rfl
  | case2 n v rest ih => simpa [restSucc] using ih
  | case3 r rest => simp [restSucc, Flow.steps]
  | case4 n r rest ih => simpa [restSucc] using ih

end Pulled

namespace Flow

variable {ρ : Type}

@[simp]
theorem rows_empty : (empty : Flow ρ).rows = [] := rfl

@[simp]
theorem rows_ofRows (rs : List ρ) : (ofRows rs).rows = rs := by
  simp [ofRows, ofSteps, rows]

@[simp]
theorem rows_take (n : Nat) (flow : Flow ρ) : (flow.take n).rows = flow.rows.take n := by
  cases n with
  | zero => rfl
  | succ n => exact Pulled.rows_takeSucc n (flow.pull ())

@[simp]
theorem rows_rest (n : Nat) (flow : Flow ρ) : (flow.rest n).rows = flow.rows.drop n := by
  cases n with
  | zero => rfl
  | succ n => exact Pulled.rows_restSucc n (flow.pull ())

@[simp]
theorem rows_drop (n : Nat) (flow : Flow ρ) : (flow.drop n).rows = flow.rows.drop n :=
  Pulled.rows_drop n (flow.pull ())

@[simp]
theorem rows_filter (t : ρ → Bool) (flow : Flow ρ) :
    (flow.filter t).rows = flow.rows.filter t :=
  Pulled.rows_filter t (flow.pull ())

@[simp]
theorem rows_map (f : ρ → ρ) (flow : Flow ρ) : (flow.map f).rows = flow.rows.map f :=
  Pulled.rows_map f (flow.pull ())

@[simp]
theorem rows_flatMap (f : ρ → List ρ) (flow : Flow ρ) :
    (flow.flatMap f).rows = flow.rows.flatMap f :=
  Pulled.rows_flatMap f (flow.pull ())

@[simp]
theorem rows_observe (o : Observer) (flow : Flow ρ) : (flow.observe o).rows = flow.rows :=
  Pulled.rows_observe o (flow.pull ())

@[simp]
theorem rows_takeWhile (t : ρ → Bool) (flow : Flow ρ) :
    (flow.takeWhile t).rows = flow.rows.takeWhile t :=
  Pulled.rows_takeWhile t (flow.pull ())

@[simp]
theorem rows_dropWhile (t : ρ → Bool) (flow : Flow ρ) :
    (flow.dropWhile t).rows = flow.rows.dropWhile t :=
  Pulled.rows_dropWhile t (flow.pull ())

@[simp]
theorem rows_distinct {κ : Type} [BEq κ] [Hashable κ] (key : ρ → κ) (flow : Flow ρ) :
    (flow.distinct key).rows = firsts key flow.rows :=
  Pulled.rows_distinctFrom key ∅ (flow.pull ())

@[simp]
theorem rows_rearrange (f : List ρ → List ρ) (flow : Flow ρ) :
    (flow.rearrange f).rows = f flow.rows :=
  Pulled.rows_rearrange f (flow.pull ())

/-- A consumer who stops behind `n` rows leaves the other steps for later. -/
theorem take_append_rest (n : Nat) (flow : Flow ρ) :
    (flow.take n).steps ++ (flow.rest n).steps = flow.steps := by
  cases n with
  | zero => rfl
  | succ n => exact Pulled.takeSucc_append_restSucc n (flow.pull ())

end Flow
end Pushdown
