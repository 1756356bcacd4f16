import Pushdown.Outline.Pipelines
import Pushdown.Render.Renderer

/-! # Outlines of renders

The outlines of queries, results, registries and renderers.
-/

namespace Pushdown

namespace Restriction

mutual

def outline : Restriction → String
  | always => "True"
  | never => "False"
  | compare c parameters =>
    Outline.call "Compare"
      [Outline.record "BoundPredicate"
        [("predicate", c.outline),
         ("parameters", Outline.list (parameters.map Outline.quoted))]]
  | all rs => Outline.call "And" [Outline.list (outlines rs)]
  | any rs => Outline.call "Or" [Outline.list (outlines rs)]
  | not r => Outline.call "Not" [outline r]

def outlines : List Restriction → List String
  | [] => []
  | r :: rs => outline r :: outlines rs

end

end Restriction

def Fetch.outline (f : Fetch) : String :=
  Outline.record "Fetch" [("column", Outline.quoted f.column), ("join", f.join.name)]

def Selection.outline : Selection → String
  | root => "Root"
  | columns names => Outline.call "Columns" [Outline.list (names.map Outline.quoted)]
  | count => "Count"

def OrderTerm.outline (t : OrderTerm) : String :=
  Outline.record "OrderTerm" [("column", Outline.quoted t.column), ("direction", t.direction.name)]

def Binding.outline (b : Binding) : String :=
  Outline.record "QueryParameter" [("name", Outline.quoted b.name), ("value", b.value.outline)]

def Criteria.outline (c : Criteria) : String :=
  Outline.record "CriteriaQuery"
    [("root", Outline.quoted c.root),
     ("alias", Outline.quoted c.shortName),
     ("selection", c.selection.outline),
     ("fetches", Outline.list (c.fetches.map Fetch.outline)),
     ("restriction", Outline.option (c.restriction?.map Restriction.outline)),
     ("order", Outline.list (c.order.map OrderTerm.outline)),
     ("distinct", truthWord c.distinct),
     ("parameters", Outline.list (c.parameters.map Binding.outline)),
     ("windowed", truthWord c.windowed)]

def Hints.outline (hints : Hints) : String :=
  Outline.call "QueryHints" [Outline.pairs (hints.toList.map fun e => (e.1, e.2.outline))]

def Query.outline (q : Query) : String :=
  Outline.record "ExecutableQuery"
    [("criteria", q.criteria.outline),
     ("first_result", toString q.firstResult.toNat),
     ("max_results", Outline.option (q.maxResults?.map fun n => toString n.toNat)),
     ("hints", q.hints.outline)]

def RenderSummary.outline (s : RenderSummary) : String :=
  Outline.record "RenderSummary"
    [("pushed", toString s.pushed),
     ("replayed", toString s.replayed),
     ("merged", Outline.list (s.merged.map Kind.outline)),
     ("failures", Outline.list (s.failures.map LoweringError.outline)),
     ("count_fast_path", truthWord s.countFastPath),
     ("query", Outline.option (some s.query.outline))]

def ResultSequence.outline {ρ : Type} (s : ResultSequence ρ) : String :=
  let state :=
    match s with
    | rows _ => "rows"
    | counted _ => "count"
    | consumed => "consumed"
  Outline.record "ResultSequence" [("state", Outline.quoted state)]

def RenderResult.outline {ρ : Type} (r : RenderResult ρ) : String :=
  Outline.record "RenderResult"
    [("sequence", r.sequence.outline),
     ("terminal", r.terminal.kind.outline),
     ("summary", r.summary.outline)]

def Registry.outline {ρ : Type} (r : Registry ρ) : String :=
  Outline.record "MergeRegistry"
    [("criteria", Outline.list (r.criteria.keys.map Kind.outline)),
     ("query", Outline.list (r.query.keys.map Kind.outline))]

def OptimizerSettings.outline (s : OptimizerSettings) : String :=
  Outline.record "OptimizerConfig"
    [("terminal", truthWord s.terminal), ("squash", truthWord s.squash)]

def RendererSettings.outline (s : RendererSettings) : String :=
  Outline.record "RendererConfig"
    [("debug", truthWord s.debug),
     ("count_fast_path", truthWord s.countFastPath),
     ("optimizer", s.optimizer.outline)]

def Renderer.outline {ρ : Type} (r : Renderer ρ) : String :=
  Outline.partialRecord "Renderer"
    [("registry", r.registry.outline),
     ("config", r.settings.outline),
     ("trace", truthWord r.traced)]

def Outline.field (column : String) : String := Outline.call "Field" [column]

def StreamConfiguration.outline (c : StreamConfiguration) : String :=
  Outline.record "StreamConfiguration"
    [("joins", Outline.list (c.joins.map fun j => Outline.call "" [Outline.field j.1, j.2.name])),
     ("projection",
       Outline.option (c.projection?.map fun names => Outline.list (names.map Outline.field))),
     ("hints", c.hints.outline)]

end Pushdown
