import Pushdown.Pipeline.Optimization
import Pushdown.Query.Windowed

/-! # Configuration

A caller asks for joins, a projection and hints of one stream, and gives settings to a renderer.
-/

namespace Pushdown

structure StreamConfiguration where
  joins : List (String × JoinType)
  projection? : Option (List String)
  hints : Hints

namespace StreamConfiguration

def standard : StreamConfiguration := ⟨[], none, .empty⟩

def joiningWith (c : StreamConfiguration) (column : String) (join : JoinType) :
    StreamConfiguration :=
  { c with joins := c.joins ++ [(column, join)] }

def joining (c : StreamConfiguration) (column : String) : StreamConfiguration :=
  c.joiningWith column .standard

def selecting (c : StreamConfiguration) (columns : List String) : StreamConfiguration :=
  { c with projection? := some columns }

def withHint (c : StreamConfiguration) (name : String) (v : Value) : StreamConfiguration :=
  { c with hints := c.hints.insert name v }

def criteria (c : StreamConfiguration) (root : String) : Criteria :=
  let plain := Criteria.new root
  let selected :=
    match c.projection? with
    | some columns => plain.select (.columns columns)
    | none => plain
  c.joins.foldl (fun criteria j => criteria.fetch j.1 j.2) selected

end StreamConfiguration

structure RendererSettings where
  debug : Bool
  /-- Ask the store for a number where nothing but a count is wanted. -/
  countFastPath : Bool
  optimizer : OptimizerSettings
deriving DecidableEq

def RendererSettings.standard : RendererSettings := ⟨false, true, .standard⟩

end Pushdown
