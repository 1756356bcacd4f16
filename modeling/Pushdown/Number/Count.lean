/-! # Row counts

Row counts have 64 bits. Their arithmetic stops at the ends instead of going round.
-/

namespace Pushdown
namespace Count

def greatest : UInt64 := 18446744073709551615

def add (a b : UInt64) : UInt64 :=
  if a.toNat + b.toNat < UInt64.size then a + b else greatest

theorem toNat_add (a b : UInt64) :
    (add a b).toNat = Min.min (a.toNat + b.toNat) (UInt64.size - 1) := by
  have ha := a.toNat_lt
  have hb := b.toNat_lt
  have hg : greatest.toNat = UInt64.size - 1 := rfl
  unfold add
  split
  · rename_i h
    rw [UInt64.toNat_add, Nat.mod_eq_of_lt h]
    omega
  · rename_i h
    rw [hg]
    omega

def sub (a b : UInt64) : UInt64 := if b ≤ a then a - b else 0

theorem toNat_sub (a b : UInt64) : (sub a b).toNat = a.toNat - b.toNat := by
  unfold sub
  split
  · rename_i h
    exact UInt64.toNat_sub_of_le a b h
  · rename_i h
    have hlt : a.toNat < b.toNat := by
      rw [UInt64.le_iff_toNat_le] at h
      omega
    change 0 = a.toNat - b.toNat
    omega

def min (a b : UInt64) : UInt64 := if a ≤ b then a else b

theorem toNat_min (a b : UInt64) : (min a b).toNat = Min.min a.toNat b.toNat := by
  unfold min
  split
  · rename_i h
    rw [UInt64.le_iff_toNat_le] at h
    omega
  · rename_i h
    rw [UInt64.le_iff_toNat_le] at h
    omega

end Count
end Pushdown
