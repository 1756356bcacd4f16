import Pushdown.Number.Binary64

/-! # Shortest decimals

`Binary64.shortest` is the shortest decimal that reads back as a given number. `Binary64.text`
writes it in full, never with an exponent, and without a point if the number is whole.
-/

namespace Pushdown

structure Decimal where
  digits : Nat
  exponent : Int
deriving DecidableEq

namespace Decimal

/-- Written out with a point and zeros, where the exponent asks for them. -/
def positional (d : Decimal) : String :=
  let ds := (toString d.digits).toList
  let places := (-d.exponent).toNat
  let whole := ds ++ List.replicate d.exponent.toNat '0'
  if places = 0 then String.ofList whole
  else if places < ds.length then
    String.ofList (ds.take (ds.length - places) ++ '.' :: ds.drop (ds.length - places))
  else String.ofList ('0' :: '.' :: List.replicate (places - ds.length) '0' ++ ds)

end Decimal

/-- The reals that round to a number, in units of `2 ^ exponent`: from `lower` to `upper` around
`centre`, with the two ends where `closed`. -/
structure RoundingInterval where
  lower : Nat
  centre : Nat
  upper : Nat
  exponent : Int
  closed : Bool

namespace RoundingInterval

/-- The numbers below a power of two lie twice as close as those above it. -/
def ofFinite (x : Binary64) : RoundingInterval :=
  let m := x.significand
  let narrow := x.magnitude % Binary64.hiddenBit = 0 ∧ Binary64.hiddenBit < x.magnitude
  { lower := 4 * m - if narrow then 1 else 2
    centre := 4 * m
    upper := 4 * m + 2
    exponent := x.scale - 2
    closed := m % 2 = 0 }

/-- The multiple of `10 ^ place` inside the interval that is nearest to its centre; of two equally
near ones the larger. -/
def gridPoint? (i : RoundingInterval) (place : Int) : Option Nat :=
  let up := Nat.pow 10 (-place).toNat <<< i.exponent.toNat
  let unit := Nat.pow 10 place.toNat <<< (-i.exponent).toNat
  let inside (p : Nat) : Bool :=
    if i.closed then i.lower * up ≤ p * unit ∧ p * unit ≤ i.upper * up
    else i.lower * up < p * unit ∧ p * unit < i.upper * up
  let below := i.centre * up / unit
  match inside below, inside (below + 1) with
  | true, true => some (if 2 * (i.centre * up) < (2 * below + 1) * unit then below else below + 1)
  | true, false => some below
  | false, true => some (below + 1)
  | false, false => none

/-- The point of the coarsest decimal grid that has one inside. Every interval of a finite nonzero
number is wider than the finest grid tried. -/
def shortest (i : RoundingInterval) : Decimal :=
  let places := (List.range 700).map fun (n : Nat) => (310 : Int) - (n : Int)
  (places.findSome? fun place => (i.gridPoint? place).map fun p => ⟨p, place⟩).getD ⟨0, 0⟩

end RoundingInterval

namespace Binary64

def shortest (x : Binary64) : Decimal :=
  if x.magnitude = 0 then ⟨0, 0⟩ else (RoundingInterval.ofFinite x).shortest

def text (x : Binary64) : String :=
  if x.isNaN then "NaN"
  else
    let size := if x.isFinite then x.shortest.positional else "inf"
    if x.isNegative then "-" ++ size else size

end Binary64
end Pushdown
