import Pushdown.Text.Outline

/-! # Errors

Three things can go wrong: an argument has no form in a query, a store refuses a call, or a render
does. Each cause is a constructor; its wording is in one function.
-/

namespace Pushdown

/-- Why a predicate or a comparator has no form in a query. -/
inductive LoweringError
  | unknownColumn (entity column : String)
  | nullLiteral (column test : String)
  | emptyList (column test : String)
  | nullBound (column : String)
  | closure
deriving DecidableEq

namespace LoweringError

def name : LoweringError → String
  | unknownColumn .. => "UnknownColumn"
  | nullLiteral .. => "NullLiteral"
  | emptyList .. => "EmptyList"
  | nullBound _ => "NullBound"
  | closure => "Opaque"

def message : LoweringError → String
  | unknownColumn entity column =>
    "column '" ++ column ++ "' is not defined on entity '" ++ entity ++ "'"
  | nullLiteral column test =>
    "null literal in '" ++ test ++ "' comparison on column '" ++ column ++ "'; use is_null instead"
  | emptyList column test =>
    "empty value list in '" ++ test ++ "' comparison on column '" ++ column ++ "'"
  | nullBound column => "null bound in range comparison on column '" ++ column ++ "'"
  | closure => "closure-backed argument has no query form"

def outline (e : LoweringError) : String :=
  let withTest (column test : String) :=
    Outline.record e.name [("column", Outline.quoted column), ("op", Outline.quoted test)]
  match e with
  | unknownColumn entity column =>
    Outline.record e.name [("entity", Outline.quoted entity), ("column", Outline.quoted column)]
  | nullLiteral column test | emptyList column test => withTest column test
  | nullBound column => Outline.record e.name [("column", Outline.quoted column)]
  | closure => e.name

end LoweringError

inductive ErrorClass
  | internal
  | invariantViolation
  | unavailable
  | unsupported
  | corruption
deriving DecidableEq

namespace ErrorClass

def all : List ErrorClass := [internal, invariantViolation, unavailable, unsupported, corruption]

def display : ErrorClass → String
  | internal => "internal"
  | invariantViolation => "invariant_violation"
  | unavailable => "unavailable"
  | unsupported => "unsupported"
  | corruption => "corruption"

end ErrorClass

structure StoreError where
  errorClass : ErrorClass
  text : String
deriving DecidableEq

namespace StoreError

def wrongRoot (entity root : String) : StoreError :=
  ⟨.unsupported, "store holds '" ++ entity ++ "' rows, query is rooted on '" ++ root ++ "'"⟩

def unknownColumn (entity column : String) : StoreError :=
  ⟨.unsupported, "unknown column '" ++ column ++ "' on '" ++ entity ++ "'"⟩

def message (e : StoreError) : String :=
  "store error (" ++ e.errorClass.display ++ "): " ++ e.text

end StoreError

/-- A use of a pipeline or a result that its state does not allow. -/
inductive Misuse
  | terminalAlreadySet (existing : String)
  | alreadyRendered
  | failedBefore
  | noTerminal
  | alreadyConsumed
  | countCannotAnswer (terminal : String)
  | otherShape (terminal : String)
deriving DecidableEq

def Misuse.message : Misuse → String
  | terminalAlreadySet existing => "terminal operation already set to " ++ existing
  | alreadyRendered => "pipeline was already rendered"
  | failedBefore => "pipeline is in a failed state after an earlier render"
  | noTerminal => "pipeline has no terminal operation"
  | alreadyConsumed => "result sequence was already consumed"
  | countCannotAnswer terminal => "count-only result cannot answer " ++ terminal
  | otherShape terminal => terminal ++ " produced a value of another shape"

/-- A request that no part of the program can serve. -/
inductive Missing
  | noReplay (operation : String)
  | countHasNoRows
deriving DecidableEq

def Missing.message : Missing → String
  | noReplay operation => operation ++ " has no in-memory replay and was not pushed down"
  | countHasNoRows => "count-only result carries no rows"

/-- Why a render, or the use of its result, fails. -/
inductive RenderError
  | illegalState (cause : Misuse)
  | unsupported (cause : Missing)
  | store (e : StoreError)
deriving DecidableEq

namespace RenderError

def errorClass : RenderError → ErrorClass
  | illegalState _ => .invariantViolation
  | unsupported _ => .unsupported
  | store e => e.errorClass

def message : RenderError → String
  | illegalState cause => "illegal state: " ++ cause.message
  | unsupported cause => "unsupported operation: " ++ cause.message
  | store e => e.message

end RenderError
end Pushdown
