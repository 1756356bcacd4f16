import Pushdown.Data.Entries
import Pushdown.Journal.Basic

/-! # Metrics

Counters add up metrics events, in total and by entity.
-/

namespace Pushdown

structure Counters where
  renders : Nat
  renderErrors : Nat
  countFastPath : Nat
  operationsPushed : Nat
  operationsReplayed : Nat
  loweringFailures : Nat
  storeExecutions : Nat
  rowsScanned : Nat
deriving DecidableEq

namespace Counters

def zero : Counters := ⟨0, 0, 0, 0, 0, 0, 0, 0⟩

def add (a b : Counters) : Counters where
  renders := a.renders + b.renders
  renderErrors := a.renderErrors + b.renderErrors
  countFastPath := a.countFastPath + b.countFastPath
  operationsPushed := a.operationsPushed + b.operationsPushed
  operationsReplayed := a.operationsReplayed + b.operationsReplayed
  loweringFailures := a.loweringFailures + b.loweringFailures
  storeExecutions := a.storeExecutions + b.storeExecutions
  rowsScanned := a.rowsScanned + b.rowsScanned

end Counters

namespace MetricsEvent

def entity : MetricsEvent → String
  | renderStart e | renderFinish e _ _ _ | renderError e _ | loweringFailure e
  | storeExecution e _ => e

def counters : MetricsEvent → Counters
  | renderStart _ => { Counters.zero with renders := 1 }
  | renderFinish _ pushed replayed fastPath =>
    { Counters.zero with
      operationsPushed := pushed
      operationsReplayed := replayed
      countFastPath := if fastPath then 1 else 0 }
  | renderError _ _ => { Counters.zero with renderErrors := 1 }
  | loweringFailure _ => { Counters.zero with loweringFailures := 1 }
  | storeExecution _ rowsScanned =>
    { Counters.zero with storeExecutions := 1, rowsScanned := rowsScanned }

end MetricsEvent

structure MetricsReport where
  totals : Counters
  entities : Entries String Counters
deriving DecidableEq

namespace MetricsReport

def empty : MetricsReport := ⟨.zero, .empty⟩

def record (r : MetricsReport) (e : MetricsEvent) : MetricsReport :=
  ⟨r.totals.add e.counters, r.entities.adjust e.entity .zero (·.add e.counters)⟩

def recordAll (r : MetricsReport) (es : List MetricsEvent) : MetricsReport := es.foldl record r

end MetricsReport
end Pushdown
