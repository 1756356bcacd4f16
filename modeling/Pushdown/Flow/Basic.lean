import Pushdown.Flow.Step

/-! # Flows

A flow of rows waits to be pulled, and nothing happens in it before. A pull leads to the end, or to
one step and whatever the next pull leads to. The steps behind are worked out when they are pulled,
so a consumer who stops early causes no others, and one who goes on comes to the end. `Flow.steps`
lists what happens to the consumer who goes on; flows with the same steps are equal.
-/

namespace Pushdown

inductive Pulled (ρ : Type)
  | ended
  | step (s : Step ρ) (rest : Unit → Pulled ρ)

/-- Rows that come one by one when they are pulled. -/
structure Flow (ρ : Type) where
  pull : Unit → Pulled ρ

namespace Pulled

variable {ρ : Type}

/-- Puts what `f` finds in the steps behind the elements of `found`. -/
def gather {α : Type} (f : Step ρ → Option α) : Array α → Pulled ρ → Array α
  | found, ended => found
  | found, step s rest =>
    match f s with
    | some a => gather f (found.push a) (rest ())
    | none => gather f found (rest ())

/-- What `f` finds in the steps up to the end. -/
def findings {α : Type} (f : Step ρ → Option α) (p : Pulled ρ) : List α := (gather f #[] p).toList

def steps (p : Pulled ρ) : List (Step ρ) := p.findings some

def rows (p : Pulled ρ) : List ρ := p.findings Step.row?

def visits (p : Pulled ρ) : List (Visit ρ) := p.findings Step.visit?

theorem toList_gather {α : Type} (f : Step ρ → Option α) (found : Array α) (p : Pulled ρ) :
    (gather f found p).toList = found.toList ++ p.findings f := by
  induction p generalizing found with
  | ended => simp [gather, findings]
  | step s rest ih =>
    unfold findings
    rw [gather, gather]
    split
    · rw [ih, ih]
      simp
    · rw [ih, ih]
      simp

@[simp]
theorem findings_ended {α : Type} (f : Step ρ → Option α) :
    (ended : Pulled ρ).findings f = [] := rfl

theorem findings_step {α : Type} (f : Step ρ → Option α) (s : Step ρ)
    (rest : Unit → Pulled ρ) :
    (step s rest).findings f = (f s).toList ++ (rest ()).findings f := by
  unfold findings
  rw [gather]
  split
  · rename_i a h
    rw [toList_gather, h]
    rfl
  · rename_i h
    rw [toList_gather, h]
    rfl

@[simp]
theorem steps_ended : (ended : Pulled ρ).steps = [] := rfl

@[simp]
theorem steps_step (s : Step ρ) (rest : Unit → Pulled ρ) :
    (step s rest).steps = s :: (rest ()).steps :=
  findings_step some s rest

theorem findings_eq {α : Type} (f : Step ρ → Option α) (p : Pulled ρ) :
    p.findings f = p.steps.filterMap f := by
  induction p with
  | ended => rfl
  | step s rest ih =>
    rw [findings_step, ih, steps_step]
    cases h : f s <;> simp [h]

theorem eq_of_steps_eq {p q : Pulled ρ} (h : p.steps = q.steps) : p = q := by
  induction p generalizing q with
  | ended =>
    cases q with
    | ended => rfl
    | step s rest => simp at h
  | step s rest ih =>
    cases q with
    | ended => simp at h
    | step s' rest' =>
      simp only [steps_step, List.cons.injEq] at h
      rw [h.1, funext fun u => ih u h.2]

/-- The given steps, and behind them what `later` leads to. -/
def prepend : List (Step ρ) → (Unit → Pulled ρ) → Pulled ρ
  | [], later => later ()
  | s :: ss, later => step s fun _ => prepend ss later

@[simp]
theorem steps_prepend (ss : List (Step ρ)) (later : Unit → Pulled ρ) :
    (prepend ss later).steps = ss ++ (later ()).steps := by
  induction ss with
  | nil => rfl
  | cons s ss ih => simp [prepend, ih]

end Pulled

namespace Flow

variable {ρ : Type}

def steps (flow : Flow ρ) : List (Step ρ) := (flow.pull ()).steps

def rows (flow : Flow ρ) : List ρ := (flow.pull ()).rows

def visits (flow : Flow ρ) : List (Visit ρ) := (flow.pull ()).visits

theorem eq_of_steps_eq {a b : Flow ρ} (h : a.steps = b.steps) : a = b :=
  congrArg Flow.mk (funext fun _ => Pulled.eq_of_steps_eq h)

def empty : Flow ρ := ⟨fun _ => .ended⟩

def ofSteps (ss : List (Step ρ)) : Flow ρ := ⟨fun _ => .prepend ss fun _ => .ended⟩

def ofRows (rows : List ρ) : Flow ρ := ofSteps (rows.map .row)

@[simp]
theorem steps_ofSteps (ss : List (Step ρ)) : (ofSteps ss).steps = ss := by
  simp [ofSteps, steps]

theorem ofSteps_steps (flow : Flow ρ) : ofSteps flow.steps = flow :=
  eq_of_steps_eq (steps_ofSteps flow.steps)

end Flow
end Pushdown
