import Pushdown.Error
import Pushdown.Pipeline.Terminal
import Pushdown.Query.Windowed

/-! # Results

The result of a render holds a sequence that can be used once: rows, or the number of them where a
store has counted.
-/

namespace Pushdown

/-- What a render yields, as long as nobody has used it. -/
inductive ResultSequence (ρ : Type)
  | rows (flow : Flow ρ)
  | counted (n : Nat)
  | consumed

namespace ResultSequence

variable {ρ : Type}

def isConsumed : ResultSequence ρ → Bool
  | consumed => true
  | _ => false

def isCountOnly : ResultSequence ρ → Bool
  | counted _ => true
  | _ => false

end ResultSequence

structure RenderSummary where
  pushed : Nat
  replayed : Nat
  merged : List Kind
  failures : List LoweringError
  countFastPath : Bool
  query : Query

structure RenderResult (ρ : Type) where
  sequence : ResultSequence ρ
  terminal : Terminal ρ
  summary : RenderSummary

/-- One use of a result: the answer, the visits that it caused, and the result behind it. -/
structure Consumption (ρ α : Type) where
  answer : Except RenderError α
  visits : List (Visit ρ)
  result : RenderResult ρ

namespace RenderResult

variable {ρ : Type}

/-- Applies the terminal operation and uses the sequence up. -/
def execute (E : Entity ρ) (r : RenderResult ρ) : Consumption ρ (TerminalValue ρ) :=
  let used := { r with sequence := .consumed }
  match r.sequence with
  | .consumed => ⟨.error (.illegalState .alreadyConsumed), [], r⟩
  | .rows flow => ⟨.ok (r.terminal.evaluate E flow), (r.terminal.pulled E flow).visits, used⟩
  | .counted n =>
    match r.terminal with
    | .count => ⟨.ok (.count n), [], used⟩
    | t => ⟨.error (.illegalState (.countCannotAnswer t.display)), [], used⟩

/-- Takes the rows without applying the terminal operation. A number stays where it is. -/
def takeRows (r : RenderResult ρ) : Consumption ρ (Flow ρ) :=
  match r.sequence with
  | .consumed => ⟨.error (.illegalState .alreadyConsumed), [], r⟩
  | .rows flow => ⟨.ok flow, [], { r with sequence := .consumed }⟩
  | .counted _ => ⟨.error (.unsupported .countHasNoRows), [], r⟩

end RenderResult
end Pushdown
