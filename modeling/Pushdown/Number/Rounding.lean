import Pushdown.Number.Binary64

/-! # Rounding

`Binary64.nearest` rounds a quotient of naturals to the nearest number, ties to the even
significand. `Binary64.ofDecimal?` reads a decimal in two roundings: its digits, then their product
with (or their quotient by) a power of ten.
-/

namespace Pushdown

/-- The natural nearest to `num / den`; a half goes to the even neighbour. -/
def roundDiv (num den : Nat) : Nat :=
  let q := num / den
  let r := num % den
  if 2 * r < den ∨ (2 * r = den ∧ q % 2 = 0) then q else q + 1

namespace Binary64

/-- The nearest number to `num / den`, infinity beyond the largest. -/
def nearest (negative : Bool) (num den : Nat) : Binary64 :=
  if num = 0 then ofMagnitude negative 0
  else
    let guess : Int := (num.log2 : Int) - den.log2
    let top := if num <<< (-guess).toNat < den <<< guess.toNat then guess - 1 else guess
    let unit := max (top - 52) (-1074)
    let m := roundDiv (num <<< (-unit).toNat) (den <<< unit.toNat)
    ofMagnitude negative (min ((unit + 1074).toNat * hiddenBit + m) infinityMagnitude)

def ofNat (n : Nat) : Binary64 := nearest false n 1

def ofInt (n : Int) : Binary64 := nearest (n < 0) n.natAbs 1

def mulAbs (negative : Bool) (x y : Binary64) : Binary64 :=
  let e := x.scale + y.scale
  nearest negative ((x.significand * y.significand) <<< e.toNat) (1 <<< (-e).toNat)

def divAbs (negative : Bool) (x y : Binary64) : Binary64 :=
  let e := x.scale - y.scale
  nearest negative (x.significand <<< e.toNat) (y.significand <<< (-e).toNat)

/-- Divides by `10 ^ exponent`, at most 308 places at a time, rounding each time. -/
def divideByTens (negative : Bool) (x : Binary64) (exponent : Nat) : Binary64 :=
  if 308 < exponent ∧ x.magnitude ≠ 0 then
    divideByTens negative (divAbs negative x (ofNat (Nat.pow 10 308))) (exponent - 308)
  else divAbs negative x (ofNat (Nat.pow 10 exponent))
termination_by exponent

/-- Reads `digits * 10 ^ exponent`; `none` where the number is beyond the largest finite one. -/
def ofDecimal? (negative : Bool) (digits : Nat) (exponent : Int) : Option Binary64 :=
  let x := nearest negative digits 1
  if exponent < 0 then some (divideByTens negative x (-exponent).toNat)
  else if digits = 0 then some x
  else if 308 < exponent then none
  else
    let y := mulAbs negative x (ofNat (Nat.pow 10 exponent.toNat))
    if y.isFinite then some y else none

end Binary64
end Pushdown
