import Pushdown.Number.Shortest
import Pushdown.Text.Runs

/-! # Values

A value is what a cell holds. `Value.compare` orders all values, first by variant, then by payload;
it serves sorting and row identity. `Value.strictCompare?` serves conditions: it is defined on two
values of one variant only, never on null, and follows the number line on floats.
-/

namespace Pushdown

inductive Value
  | null
  | bool (b : Bool)
  | int (n : Int64)
  | float (x : Binary64)
  | text (s : String)
deriving DecidableEq, Hashable, Inhabited

namespace Value

def isNull : Value → Bool
  | null => true
  | _ => false

def asText? : Value → Option String
  | text s => some s
  | _ => none

def rank : Value → Nat
  | null => 0
  | bool _ => 1
  | int _ => 2
  | float _ => 3
  | text _ => 4

protected def compare (a b : Value) : Ordering :=
  match a, b with
  | bool a, bool b => Ord.compare a b
  | int a, int b => Ord.compare a.toInt b.toInt
  | float a, float b => a.totalCompare b
  | text a, text b => Ord.compare a b
  | a, b => Ord.compare a.rank b.rank

instance : Ord Value := ⟨Value.compare⟩

def strictCompare? (a b : Value) : Option Ordering :=
  match a, b with
  | bool a, bool b => some (Ord.compare a b)
  | int a, int b => some (Ord.compare a.toInt b.toInt)
  | float a, float b => a.compare? b
  | text a, text b => some (Ord.compare a b)
  | _, _ => none

/-- The words that identify a value: two values are equal exactly if they give the same words. -/
def identity : Value → Nat × Int × String
  | null => (0, 0, "")
  | bool b => (1, if b then 1 else 0, "")
  | int n => (2, n.toInt, "")
  | float x => (3, x.bits.toNat, "")
  | text s => (4, 0, s)

/-- The text of a value inside conditions: text stands between single quotes, as it is. -/
def display : Value → String
  | null => "NULL"
  | bool b => truthWord b
  | int n => toString n.toInt
  | float x => x.text
  | text s => "'" ++ s ++ "'"

def ofOption {α : Type} (f : α → Value) : Option α → Value
  | none => null
  | some a => f a

end Value
end Pushdown
