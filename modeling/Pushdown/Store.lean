import Pushdown.Journal.Basic
import Pushdown.Query.Windowed

/-! # Store

A store of rows of one entity answers queries: restriction, DISTINCT, order, then the window.
Projected and fetched columns are checked, but whole rows come back.
-/

namespace Pushdown

/-- Rows of one entity, with what the store remembers of earlier calls. -/
structure Store (ρ : Type) where
  entity : Entity ρ
  rows : List ρ
  failure? : Option StoreError
  executions : Nat
  counts : Nat
  lastQuery? : Option Query
  debug : Bool

/-- The answer to one call, and the store behind it. -/
structure StoreReply (ρ α : Type) where
  answer : Except StoreError α
  store : Store ρ
  journal : Journal

namespace Store

variable {ρ : Type}

def new (E : Entity ρ) (rows : List ρ) : Store ρ := ⟨E, rows, none, 0, 0, none, false⟩

def failing (s : Store ρ) (e : StoreError) : Store ρ := { s with failure? := some e }

def withDebug (s : Store ρ) : Store ρ := { s with debug := true }

/-- The columns that a store looks up for a query, in the order in which it checks them. -/
def referencedColumns (c : Criteria) : List String :=
  let projected :=
    match c.selection with
    | .columns names => names
    | .root | .count => []
  projected ++ c.fetches.map Fetch.column ++ c.order.map OrderTerm.column

def refusal? (s : Store ρ) (c : Criteria) : Option StoreError :=
  match s.failure? with
  | some e => some e
  | none =>
    if c.root ≠ s.entity.name then some (.wrongRoot s.entity.name c.root)
    else
      ((referencedColumns c).find? fun column => !s.entity.hasColumn column).map
        (.unknownColumn s.entity.name)

def orderComparator (order : List OrderTerm) : Comparator ρ :=
  .chain (order.map fun t => .column t.column t.direction)

/-- The rows that criteria select, before any window. A count needs no order. -/
def select (s : Store ρ) (c : Criteria) : List ρ :=
  let kept :=
    match c.restriction? with
    | some r => s.rows.filter fun row => r.holds s.entity row
    | none => s.rows
  let apart := if c.distinct then s.entity.distinctRows kept else kept
  if c.order.isEmpty || c.selection == .count then apart
  else (orderComparator c.order).sort s.entity apart

def window (q : Query) (rows : List ρ) : List ρ :=
  let rows := rows.drop q.firstResult.toNat
  match q.maxResults? with
  | some n => rows.take n.toNat
  | none => rows

def execute (s : Store ρ) (q : Query) : StoreReply ρ (List ρ) :=
  match s.refusal? q.criteria with
  | some e => ⟨.error e, s, .empty⟩
  | none =>
    { answer := .ok (window q (s.select q.criteria))
      store := { s with executions := s.executions + 1, lastQuery? := some q }
      journal := .ofLine s.debug ("Executing " ++ q.text) ++
        .ofMetrics (.storeExecution s.entity.name s.rows.length) }

def count (s : Store ρ) (c : Criteria) : StoreReply ρ Nat :=
  match s.refusal? c with
  | some e => ⟨.error e, s, .empty⟩
  | none =>
    { answer := .ok (s.select c).length
      store := { s with counts := s.counts + 1 }
      journal := .ofLine s.debug ("Counting " ++ c.text) ++
        .ofMetrics (.storeExecution s.entity.name s.rows.length) }

end Store
end Pushdown
