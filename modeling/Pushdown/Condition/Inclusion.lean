import Pushdown.Data.Value

/-! # Range inclusion

Which ends of a range belong to it. The rules for null are not symmetric: a missing start is no
bound only for the policy that includes the start and excludes the end, a missing end only for the
opposite policy, and outside a range a null cell counts exactly where the including ends are null.
-/

namespace Pushdown

inductive Inclusion
  | startExclusiveEndExclusive
  | startExclusiveEndInclusive
  | startInclusiveEndExclusive
  | startInclusiveEndInclusive
deriving DecidableEq, Inhabited

namespace Inclusion

def all : List Inclusion :=
  [startExclusiveEndExclusive, startExclusiveEndInclusive, startInclusiveEndExclusive,
    startInclusiveEndInclusive]

def standard : Inclusion := startInclusiveEndExclusive

def includesStart : Inclusion → Bool
  | startInclusiveEndExclusive | startInclusiveEndInclusive => true
  | _ => false

def includesEnd : Inclusion → Bool
  | startExclusiveEndInclusive | startInclusiveEndInclusive => true
  | _ => false

/-- Does `v` lie on the inner side of `start`? Undefined for values that do not compare. -/
def startAccepts? (i : Inclusion) (v start : Value) : Option Bool :=
  (start.strictCompare? v).map fun o => if i.includesStart then o != .gt else o == .lt

def endAccepts? (i : Inclusion) (v last : Value) : Option Bool :=
  (last.strictCompare? v).map fun o => if i.includesEnd then o != .lt else o == .gt

def inRange (i : Inclusion) (v start last : Value) : Bool :=
  if v.isNull then false
  else
    let lower :=
      if start.isNull then i == startInclusiveEndExclusive else (i.startAccepts? v start).getD false
    let upper :=
      if last.isNull then i == startExclusiveEndInclusive else (i.endAccepts? v last).getD false
    lower && upper

def notInRange (i : Inclusion) (v start last : Value) : Bool :=
  if v.isNull then
    match i with
    | startInclusiveEndInclusive => start.isNull || last.isNull
    | startInclusiveEndExclusive => start.isNull && !last.isNull
    | startExclusiveEndInclusive => !start.isNull && last.isNull
    | startExclusiveEndExclusive => false
  else if start.isNull || last.isNull then false
  else
    match i.startAccepts? v start, i.endAccepts? v last with
    | some lower, some upper => !(lower && upper)
    | _, _ => false

def symbol : Inclusion → String
  | startExclusiveEndExclusive => "()"
  | startExclusiveEndInclusive => "(]"
  | startInclusiveEndExclusive => "[)"
  | startInclusiveEndInclusive => "[]"

def name : Inclusion → String
  | startExclusiveEndExclusive => "StartExclusiveEndExclusive"
  | startExclusiveEndInclusive => "StartExclusiveEndInclusive"
  | startInclusiveEndExclusive => "StartInclusiveEndExclusive"
  | startInclusiveEndInclusive => "StartInclusiveEndInclusive"

end Inclusion
end Pushdown
