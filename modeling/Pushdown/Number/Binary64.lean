/-! # Binary floating point

A binary floating-point number of 64 bits is given by its bits. There are two orders: the total
order ranks all bit patterns, and the numeric comparison follows the number line, where both zeros
are one point and NaN is nowhere.
-/

namespace Pushdown

/-- A floating-point number as its 64 bits. -/
structure Binary64 where
  bits : UInt64
deriving DecidableEq, Hashable, Inhabited

namespace Binary64

def signBit : Nat := 1 <<< 63

/-- The place above the stored fraction, where every normal number has an unstored one. -/
def hiddenBit : Nat := 1 <<< 52

def infinityMagnitude : Nat := 2047 * hiddenBit

def isNegative (x : Binary64) : Bool := signBit ≤ x.bits.toNat

def magnitude (x : Binary64) : Nat := x.bits.toNat % signBit

def isNaN (x : Binary64) : Bool := infinityMagnitude < x.magnitude

def isFinite (x : Binary64) : Bool := x.magnitude < infinityMagnitude

def ofMagnitude (negative : Bool) (magnitude : Nat) : Binary64 :=
  ⟨UInt64.ofNat (if negative then signBit + magnitude else magnitude)⟩

/-- The place in the total order: negative NaN, negative infinity, the negative numbers, the two
zeros apart, the positive numbers, infinity, NaN. -/
def totalKey (x : Binary64) : Int :=
  if x.isNegative then -(x.magnitude : Int) - 1 else x.magnitude

def totalCompare (x y : Binary64) : Ordering := compare x.totalKey y.totalKey

/-- The place on the number line of a number that is no NaN. -/
def lineKey (x : Binary64) : Int :=
  if x.isNegative then -(x.magnitude : Int) else x.magnitude

def compare? (x y : Binary64) : Option Ordering :=
  if x.isNaN || y.isNaN then none else some (compare x.lineKey y.lineKey)

def hex (x : Binary64) : String :=
  let ds := Nat.toDigits 16 x.bits.toNat
  String.ofList (List.replicate (16 - ds.length) '0' ++ ds)

def hexValue? (c : Char) : Option Nat :=
  if c.isDigit then some (c.toNat - '0'.toNat)
  else if 'a' ≤ c ∧ c ≤ 'f' then some (c.toNat - 'a'.toNat + 10)
  else none

def ofHex? (s : String) : Option Binary64 := do
  let ds ← s.toList.mapM hexValue?
  if ds.length = 16 then some ⟨UInt64.ofNat (ds.foldl (fun n d => 16 * n + d) 0)⟩ else none

/-- A finite number is its significand times two to the power of its scale, up to its sign. -/
def significand (x : Binary64) : Nat :=
  if x.magnitude < hiddenBit then x.magnitude else hiddenBit + x.magnitude % hiddenBit

def scale (x : Binary64) : Int :=
  (max 1 (x.magnitude / hiddenBit) : Nat) - 1075

end Binary64
end Pushdown
