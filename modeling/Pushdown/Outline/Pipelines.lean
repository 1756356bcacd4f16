import Pushdown.Outline.Conditions
import Pushdown.Pipeline.Basic

/-! # Outlines of pipelines

The outlines of operations, terminal operations and pipelines.
-/

namespace Pushdown

def Kind.outline : Kind → String
  | filter => "Filter"
  | map => "Map"
  | flatMap => "FlatMap"
  | peek => "Peek"
  | distinct => "Distinct"
  | sorted => "Sorted"
  | limit => "Limit"
  | skip => "Skip"
  | takeWhile => "TakeWhile"
  | dropWhile => "DropWhile"
  | custom name => Outline.call "Custom" [Outline.quoted name]

def Argument.outline {ρ : Type} : Argument ρ → String
  | predicate p => Outline.call "Predicate" [p.outline]
  | comparator c => Outline.call "Comparator" [c.outline]
  | count n => Outline.call "Count" [toString n.toNat]
  | mapper _ => Outline.call "Mapper" [Closure.outlineText]
  | flatMapper _ => Outline.call "FlatMapper" [Closure.outlineText]
  | observer _ => Outline.call "Action" [Closure.outlineText]

def Operation.outline {ρ : Type} (op : Operation ρ) : String :=
  Outline.record "IntermediateOperation"
    [("kind", op.kind.outline),
     ("arguments", Outline.list (op.arguments.map Argument.outline)),
     ("replayable", truthWord op.transform.isSome)]

def TerminalKind.outline : TerminalKind → String
  | count => "Count"
  | findFirst => "FindFirst"
  | findAny => "FindAny"
  | anyMatch => "AnyMatch"
  | allMatch => "AllMatch"
  | noneMatch => "NoneMatch"
  | collect => "Collect"
  | forEach => "ForEach"
  | min => "Min"
  | max => "Max"
  | iterator => "Iterator"

def Terminal.outline {ρ : Type} (t : Terminal ρ) : String :=
  Outline.record "TerminalOperation"
    [("kind", t.kind.outline), ("arguments", Outline.list (t.arguments.map Argument.outline))]

def Pipeline.outline {ρ : Type} (p : Pipeline ρ) : String :=
  Outline.record "Pipeline"
    [("root", Outline.quoted p.root),
     ("operations", Outline.list (p.operations.map Operation.outline)),
     ("terminal", Outline.option (p.terminal?.map Terminal.outline)),
     ("state", p.state.display)]

/-- The outline of a terminal's answer. A row is shown without its cells. -/
def TerminalValue.outline {ρ : Type} : TerminalValue ρ → String
  | count n => Outline.call "Count" [toString n]
  | element row? => Outline.call "Element" [Outline.option (row?.map fun _ => "Row")]
  | isMatch b => Outline.call "Match" [truthWord b]
  | elements rows => Outline.call "Elements" [Outline.list (rows.map fun _ => "Row")]
  | iterator _ => "Iterator(..)"
  | done => "Done"

def TerminalValue.shape {ρ : Type} : TerminalValue ρ → String
  | count _ => "Count"
  | element _ => "Element"
  | isMatch _ => "Match"
  | elements _ => "Elements"
  | iterator _ => "Iterator"
  | done => "Done"

end Pushdown
