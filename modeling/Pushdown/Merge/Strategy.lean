import Pushdown.Merge.Tracker
import Pushdown.Number.Count
import Pushdown.Query.Lowering
import Pushdown.Query.Windowed

/-! # Merge strategies

A strategy says how one kind of operation goes into a query. If it absorbs an operation it marks
its position, whole or with a residual; if it declines it leaves everything as it is. Filters,
sorts and DISTINCT go into the criteria as long as no window lies over it, skips and limits into
the window.
-/

namespace Pushdown

/-- What a strategy works on: the target `σ` and the books of the pass. -/
structure MergeState (ρ σ : Type) where
  target : σ
  tracker : Tracker ρ

/-- A way to absorb operations into a target `σ`, the criteria or the whole query. -/
structure Strategy (ρ σ : Type) where
  accepts : Kind → Bool
  apply : Nat → Operation ρ → MergeState ρ σ → MergeState ρ σ × Option LoweringError

namespace Strategy

variable {ρ : Type}

/-- The conjuncts without closures go into the restriction; the others stay behind as a filter. -/
def applyFilter (E : Entity ρ) (i : Nat) (op : Operation ρ) (s : MergeState ρ Criteria) :
    MergeState ρ Criteria × Option LoweringError :=
  match s.target.windowed, op.predicate? with
  | false, some p =>
    let (pushable, residual) := p.conjuncts.partition Predicate.isPushable
    if pushable.isEmpty then (s, none)
    else
      match Lowering.lowerList E s.target.parameters.length pushable with
      | .error e => (s, some e)
      | .ok (restrictions, bindings) =>
        let target := s.target.restrict (Restriction.ofConjuncts restrictions) bindings
        let tracker :=
          if residual.isEmpty then s.tracker.markForRemoval i
          else s.tracker.replaceWith i (Operation.filter E (Predicate.ofConjuncts residual))
        (⟨target, tracker.markMerged .filter⟩, none)
  | _, _ => (s, none)

/-- A sort without a comparator is by the natural order. -/
def applySort (E : Entity ρ) (i : Nat) (op : Operation ρ) (s : MergeState ρ Criteria) :
    MergeState ρ Criteria × Option LoweringError :=
  let comparator := op.comparator?.getD .natural
  if s.target.windowed || !comparator.isPushable then (s, none)
  else
    match Lowering.orderTerms E comparator with
    | .error e => (s, some e)
    | .ok terms =>
      (⟨s.target.prependOrder terms, (s.tracker.markForRemoval i).markMerged .sorted⟩, none)

/-- A second DISTINCT in one pass changes nothing and is absorbed. -/
def applyDistinct (i : Nat) (op : Operation ρ) (s : MergeState ρ Criteria) :
    MergeState ρ Criteria × Option LoweringError :=
  if s.target.windowed || !op.arguments.isEmpty then (s, none)
  else if s.tracker.wasMerged .distinct then (⟨s.target, s.tracker.markForRemoval i⟩, none)
  else
    (⟨s.target.setDistinct true, (s.tracker.markMerged .distinct).markForRemoval i⟩, none)

/-- Moves the first result on; a cap shrinks by as many rows. -/
def applySkip (i : Nat) (op : Operation ρ) (s : MergeState ρ Query) :
    MergeState ρ Query × Option LoweringError :=
  match op.count? with
  | none => (s, none)
  | some n =>
    let moved := s.target.setFirstResult (Count.add s.target.firstResult n)
    let target :=
      match moved.maxResults? with
      | some most => moved.setMaxResults (Count.sub most n)
      | none => moved
    (⟨target, (s.tracker.markForRemoval i).markMerged .skip⟩, none)

def applyLimit (i : Nat) (op : Operation ρ) (s : MergeState ρ Query) :
    MergeState ρ Query × Option LoweringError :=
  match op.count? with
  | none => (s, none)
  | some n =>
    let most :=
      match s.target.maxResults? with
      | some present => Count.min present n
      | none => n
    (⟨s.target.setMaxResults most, (s.tracker.markForRemoval i).markMerged .limit⟩, none)

def pushFilter (E : Entity ρ) : Strategy ρ Criteria := ⟨(· == .filter), applyFilter E⟩

def pushSort (E : Entity ρ) : Strategy ρ Criteria := ⟨(· == .sorted), applySort E⟩

def pushDistinct : Strategy ρ Criteria := ⟨(· == .distinct), applyDistinct⟩

def pushSkip : Strategy ρ Query := ⟨(· == .skip), applySkip⟩

def pushLimit : Strategy ρ Query := ⟨(· == .limit), applyLimit⟩

end Strategy
end Pushdown
