import Pushdown.Render.Configuration
import Pushdown.Settings.Toml.Document
import Pushdown.Text.Runs

/-! # Settings as TOML

Renderer settings can be written as TOML text. Every setting may be missing and then has its
standard value; a key that names no setting, a key given twice and a value of another type are
refused. The optimizer's settings are a table (under a header, inline, or by dotted keys), or an
array of the two values in their order, of which more elements are ignored.
-/

namespace Pushdown
namespace RendererSettings

structure Given where
  debug? : Option Bool
  countFastPath? : Option Bool
  terminal? : Option Bool
  squash? : Option Bool
deriving DecidableEq

/-- How the optimizer's table has been given so far. -/
inductive TableForm
  | absent
  | dotted
  | underHeader
  | closed
deriving DecidableEq

/-- The settings read so far, and how far the optimizer's table may still grow. -/
structure ReadingState where
  given : Given
  table : TableForm

namespace ReadingState

def start : ReadingState := ⟨⟨none, none, none, none⟩, .absent⟩

/-- A setting takes a boolean, once. -/
def put? (present : Option Bool) : Toml.Element → Option (Option Bool)
  | .bool b => if present.isNone then some (some b) else none
  | _ => none

def optimizerSetting? (g : Given) (key : String) (value : Toml.Element) : Option Given :=
  if key = "terminal" then (put? g.terminal? value).map fun b => { g with terminal? := b }
  else if key = "squash" then (put? g.squash? value).map fun b => { g with squash? := b }
  else none

def optimizerEntries? (g : Given) : List (List String × Toml.Element) → Option Given
  | [] => some g
  | ([key], value) :: rest => (optimizerSetting? g key value).bind fun g => optimizerEntries? g rest
  | _ => none

def optimizerValue? (g : Given) : Toml.Element → Option Given
  | .table entries => optimizerEntries? g entries
  | .array [] => some g
  | .array [first] => optimizerSetting? g "terminal" first
  | .array (first :: second :: _) => do
    optimizerSetting? (← optimizerSetting? g "terminal" first) "squash" second
  | _ => none

def rootSetting? (s : ReadingState) (path : List String) (value : Toml.Element) :
    Option ReadingState :=
  let g := s.given
  match path with
  | [key] =>
    if key = "debug" then
      (put? g.debug? value).map fun b => { s with given := { g with debug? := b } }
    else if key = "count_fast_path" then
      (put? g.countFastPath? value).map fun b => { s with given := { g with countFastPath? := b } }
    else if key = "optimizer" && s.table = .absent then
      (optimizerValue? g value).map fun g => ⟨g, .closed⟩
    else none
  | [table, key] =>
    if table = "optimizer" && (s.table = .absent || s.table = .dotted) then
      (optimizerSetting? g key value).map fun g => ⟨g, .dotted⟩
    else none
  | _ => none

def step? (s : ReadingState) : Toml.Statement → Option ReadingState
  | .entry path value =>
    match s.table, path with
    | .underHeader, [key] =>
      (optimizerSetting? s.given key value).map fun g => { s with given := g }
    | .underHeader, _ => none
    | _, _ => rootSetting? s path value
  | .header path =>
    if path = ["optimizer"] && s.table = .absent then some { s with table := .underHeader }
    else none
  | .arrayHeader _ => none

end ReadingState

def ofGiven (g : Given) : RendererSettings where
  debug := g.debug?.getD standard.debug
  countFastPath := g.countFastPath?.getD standard.countFastPath
  optimizer :=
    { terminal := g.terminal?.getD standard.optimizer.terminal
      squash := g.squash?.getD standard.optimizer.squash }

def ofToml? (text : String) : Option RendererSettings := do
  let statements ← Toml.read? text
  let s ← statements.foldlM ReadingState.step? ReadingState.start
  return ofGiven s.given

def tomlEntry (key : String) (b : Bool) : String := key ++ " = " ++ truthWord b ++ "\n"

def toToml (s : RendererSettings) : String :=
  tomlEntry "debug" s.debug ++ tomlEntry "count_fast_path" s.countFastPath ++ "\n[optimizer]\n" ++
    tomlEntry "terminal" s.optimizer.terminal ++ tomlEntry "squash" s.optimizer.squash

end RendererSettings
end Pushdown
