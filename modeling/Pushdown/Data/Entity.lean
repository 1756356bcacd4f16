import Pushdown.Data.Distinct
import Pushdown.Data.Value

/-! # Entities

An entity is a record type that pipelines and stores hold rows of. `Record` is a row given by its
cells, for rows whose columns are known only when the program runs.
-/

namespace Pushdown

/-- A record type with rows `ρ`: its name, its key column, its columns, and the one way to read a
column of a row. A row may define columns that the entity does not list. -/
structure Entity (ρ : Type) where
  name : String
  primaryKey : String
  columns : List String
  value? : ρ → String → Option Value

namespace Entity

variable {ρ : Type} (E : Entity ρ)

/-- A column that the row does not define reads as null. -/
def read (row : ρ) (column : String) : Value := (E.value? row column).getD .null

/-- The identity of a row under DISTINCT: its values in the entity's columns. -/
def rowKey (row : ρ) : List Value := E.columns.map (E.read row)

def hasColumn (column : String) : Bool := E.columns.contains column

def distinctRows (rows : List ρ) : List ρ := firsts E.rowKey rows

end Entity

structure Record where
  cells : List (String × Value)
deriving DecidableEq, Inhabited

namespace Record

def cell? (r : Record) (column : String) : Option Value := r.cells.lookup column

/-- Overwrites the cell of `column`, or adds one behind the others. -/
def set (r : Record) (column : String) (v : Value) : Record :=
  if r.cells.any (fun c => c.1 == column) then
    ⟨r.cells.map fun c => if c.1 == column then (column, v) else c⟩
  else ⟨r.cells ++ [(column, v)]⟩

end Record

def Entity.ofColumns (name primaryKey : String) (columns : List String) : Entity Record :=
  ⟨name, primaryKey, columns, Record.cell?⟩

end Pushdown
