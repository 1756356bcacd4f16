import Pushdown.Journal.Metrics
import Pushdown.Query.Windowed
import Pushdown.Snapshot.Values

/-! # Snapshots of queries

Queries and metrics as JSON trees.
-/

namespace Pushdown

def Json.option (j : Option Json) : Json := j.getD .null

namespace Restriction

mutual

def snapshot : Restriction → Json
  | always => .text "True"
  | never => .text "False"
  | compare c parameters =>
    .tagged "Compare"
      (.object [("predicate", c.snapshot), ("parameters", .list (parameters.map Json.text))])
  | all rs => .tagged "And" (.list (snapshots rs))
  | any rs => .tagged "Or" (.list (snapshots rs))
  | not r => .tagged "Not" (snapshot r)

def snapshots : List Restriction → List Json
  | [] => []
  | r :: rs => snapshot r :: snapshots rs

end

end Restriction

def Selection.snapshot : Selection → Json
  | root => .text "Root"
  | columns names => .tagged "Columns" (.list (names.map Json.text))
  | count => .text "Count"

def Criteria.snapshot (c : Criteria) : Json :=
  .object
    [("root", .text c.root),
     ("alias", .text c.shortName),
     ("selection", c.selection.snapshot),
     ("fetches", .list (c.fetches.map fun f =>
       .object [("column", .text f.column), ("join", f.join.snapshot)])),
     ("restriction", .option (c.restriction?.map Restriction.snapshot)),
     ("order", .list (c.order.map fun t =>
       .object [("column", .text t.column), ("direction", t.direction.snapshot)])),
     ("distinct", .bool c.distinct),
     ("parameters", .list (c.parameters.map fun b =>
       .object [("name", .text b.name), ("value", b.value.snapshot)])),
     ("windowed", .bool c.windowed)]

def Query.snapshot (q : Query) : Json :=
  .object
    [("criteria", q.criteria.snapshot),
     ("first_result", .integer q.firstResult.toNat),
     ("max_results", .option (q.maxResults?.map fun n => .integer n.toNat)),
     ("hints", .object (q.hints.toList.map fun e => (e.1, e.2.snapshot)))]

def Counters.snapshot (c : Counters) : Json :=
  .object
    [("renders", .integer c.renders),
     ("render_errors", .integer c.renderErrors),
     ("count_fast_path", .integer c.countFastPath),
     ("operations_pushed", .integer c.operationsPushed),
     ("operations_replayed", .integer c.operationsReplayed),
     ("translation_failures", .integer c.loweringFailures),
     ("store_executions", .integer c.storeExecutions),
     ("rows_scanned", .integer c.rowsScanned)]

def MetricsReport.snapshot (r : MetricsReport) : Json :=
  .object
    [("totals", r.totals.snapshot),
     ("entities", .object (r.entities.toList.map fun e => (e.1, e.2.snapshot)))]

end Pushdown
