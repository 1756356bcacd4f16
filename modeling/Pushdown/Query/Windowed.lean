import Pushdown.Data.Entries
import Pushdown.Query.Criteria

/-! # Queries

A query that is ready to be run has criteria, a window of rows to skip and rows to return, and
named hints for the store.
-/

namespace Pushdown

/-- Values for the store by name, passed on as they are. -/
abbrev Hints := Entries String Value

structure Query where
  criteria : Criteria
  firstResult : UInt64
  maxResults? : Option UInt64
  hints : Hints

namespace Query

def ofCriteria (c : Criteria) : Query := ⟨c, 0, none, .empty⟩

def setFirstResult (q : Query) (n : UInt64) : Query :=
  { q with firstResult := n, criteria := q.criteria.markWindowed }

def setMaxResults (q : Query) (n : UInt64) : Query :=
  { q with maxResults? := some n, criteria := q.criteria.markWindowed }

def setHint (q : Query) (name : String) (v : Value) : Query :=
  { q with hints := q.hints.insert name v }

/-- Copies hints in; a present hint of the same name is overwritten. -/
def extendHints (q : Query) (hints : Hints) : Query :=
  { q with hints := q.hints.insertAll hints.toList }

def text (q : Query) : String :=
  q.criteria.text ++
    (match q.maxResults? with | some n => " LIMIT " ++ toString n.toNat | none => "") ++
    (if q.firstResult = 0 then "" else " OFFSET " ++ toString q.firstResult.toNat)

end Query
end Pushdown
