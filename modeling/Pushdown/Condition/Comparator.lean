import Pushdown.Data.Closure
import Pushdown.Data.Entity
import Pushdown.Text.Runs

/-! # Comparators

A comparator orders rows by a column, by the primary key, by several keys in turn, or by a closure.
Columns compare in the order of all values, so null comes first in ascending order.
-/

namespace Pushdown

inductive Direction
  | ascending
  | descending
deriving DecidableEq, Inhabited

namespace Direction

def all : List Direction := [ascending, descending]

def apply : Direction → Ordering → Ordering
  | ascending, o => o
  | descending, o => o.swap

def display : Direction → String
  | ascending => "ASC"
  | descending => "DESC"

def name : Direction → String
  | ascending => "Asc"
  | descending => "Desc"

end Direction

/-- An order on rows. `natural` is by the primary key, ascending. -/
inductive Comparator (ρ : Type)
  | column (name : String) (direction : Direction)
  | natural
  | chain (keys : List (Comparator ρ))
  | closure (f : Closure (ρ → ρ → Ordering))

namespace Comparator

variable {ρ : Type}

mutual

def compare (E : Entity ρ) (a b : ρ) : Comparator ρ → Ordering
  | column name direction => direction.apply ((E.read a name).compare (E.read b name))
  | natural => (E.read a E.primaryKey).compare (E.read b E.primaryKey)
  | chain keys => compareChain E a b keys
  | closure f => f.fn a b

/-- The first key that tells the rows apart decides. -/
def compareChain (E : Entity ρ) (a b : ρ) : List (Comparator ρ) → Ordering
  | [] => .eq
  | key :: keys => (compare E a b key).then (compareChain E a b keys)

end

theorem compareChain_append (E : Entity ρ) (a b : ρ) (ks ls : List (Comparator ρ)) :
    compareChain E a b (ks ++ ls) = (compareChain E a b ks).then (compareChain E a b ls) := by
  induction ks with
  | nil => rfl
  | cons k ks ih => simp [compareChain, ih, Ordering.then_assoc]

mutual

/-- The keys of nested chains, from left to right. -/
def keys : Comparator ρ → List (Comparator ρ)
  | chain ks => keysOfChain ks
  | c => [c]

def keysOfChain : List (Comparator ρ) → List (Comparator ρ)
  | [] => []
  | k :: ks => keys k ++ keysOfChain ks

end

theorem keysOfChain_eq (ks : List (Comparator ρ)) : keysOfChain ks = ks.flatMap keys := by
  induction ks with
  | nil => rfl
  | cons k ks ih => simp [keysOfChain, ih]

/-- First by `c`; `d` decides between rows that `c` does not tell apart. -/
def andThen (c d : Comparator ρ) : Comparator ρ := chain (c.keys ++ d.keys)

mutual

def isPushable : Comparator ρ → Bool
  | column .. | natural => true
  | chain ks => arePushable ks
  | closure _ => false

def arePushable : List (Comparator ρ) → Bool
  | [] => true
  | k :: ks => isPushable k && arePushable ks

end

theorem arePushable_eq (ks : List (Comparator ρ)) : arePushable ks = ks.all isPushable := by
  induction ks with
  | nil => rfl
  | cons k ks ih => simp [arePushable, ih]

mutual

def same : Comparator ρ → Comparator ρ → Bool
  | column a d, column b e => a == b && d == e
  | natural, natural => true
  | chain ks, chain ls => sameList ks ls
  | closure f, closure g => f.same g
  | _, _ => false

def sameList : List (Comparator ρ) → List (Comparator ρ) → Bool
  | [], [] => true
  | k :: ks, l :: ls => same k l && sameList ks ls
  | _, _ => false

end

mutual

def display : Comparator ρ → String
  | column name direction => name ++ " " ++ direction.display
  | natural => "<natural>"
  | chain ks => commaList (displayList ks)
  | closure _ => "<opaque>"

def displayList : List (Comparator ρ) → List String
  | [] => []
  | k :: ks => display k :: displayList ks

end

theorem displayList_eq (ks : List (Comparator ρ)) : displayList ks = ks.map display := by
  induction ks with
  | nil => rfl
  | cons k ks ih => simp [displayList, ih]

/-- Stable sorting: rows that the comparator does not tell apart keep their order. -/
def sort (E : Entity ρ) (c : Comparator ρ) (rows : List ρ) : List ρ :=
  rows.mergeSort fun a b => c.compare E a b != .gt

end Comparator
end Pushdown
