import Mathlib.Data.List.Induction
import Pushdown.Flow.Rows
import Pushdown.Proofs.Orders

/-!
# The order of values

The order of all values is total, and it ties only what is equal, so it is the equality that hashing
needs. On text it is the order of code points, on floats the total order of the floating-point
standard. Conditions compare by an order that is defined less often; where it is defined the two
agree, but for zeros of opposite sign.
-/

namespace Pushdown

open Std

/-- An ordering is known if it is known when it is less and when it is greater. -/
lemma eq_of_lt_iff_of_gt_iff {o o' : Ordering} (hlt : o = .lt ↔ o' = .lt)
    (hgt : o = .gt ↔ o' = .gt) : o = o' := by
  cases o <;> cases o' <;> simp_all

lemma compare_congr {α β : Type} [Ord α] [LT α] [LE α] [LawfulOrderOrd α] [LawfulOrderLT α] [Ord β]
    [LT β] [LE β] [LawfulOrderOrd β] [LawfulOrderLT β] {a b : α} {c d : β} (hlt : a < b ↔ c < d)
    (hgt : b < a ↔ d < c) : compare a b = compare c d := by
  apply eq_of_lt_iff_of_gt_iff
  · rw [compare_eq_lt, compare_eq_lt, hlt]
  · rw [compare_eq_gt, compare_eq_gt, hgt]

namespace Binary64

variable (x y : Binary64)

/-- A negative number comes before a positive one. -/
def compareSigns : Ordering :=
  match x.isNegative, y.isNegative with
  | true, false => .lt
  | false, true => .gt
  | _, _ => .eq

/-- Is the highest bit of the fraction set? A NaN without it signals. -/
def isQuiet : Bool := hiddenBit / 2 ≤ x.magnitude % hiddenBit

/-- The bits of the fraction below the highest. -/
def payload : Nat := x.magnitude % (hiddenBit / 2)

/-- The order of two positive NaNs: one that signals comes before a quiet one, and then the smaller
payload decides. -/
def comparePayloads : Ordering :=
  match x.isQuiet, y.isQuiet with
  | false, true => .lt
  | true, false => .gt
  | _, _ => compare x.payload y.payload

/-- The total order of the floating-point standard, clause by clause: numbers come in the order of
the number line with the negative zero before the positive one, a NaN comes before or behind all
numbers by its sign, and among NaNs the sign decides, then the payload, which the negative sign
turns around. -/
def standardCompare : Ordering :=
  match x.isNaN, y.isNaN with
  | false, false => (compare x.lineKey y.lineKey).then (x.compareSigns y)
  | true, false => if x.isNegative then .lt else .gt
  | false, true => if y.isNegative then .gt else .lt
  | true, true => (x.compareSigns y).then
      (if x.isNegative then comparePayloads y x else comparePayloads x y)

lemma magnitude_lt : x.magnitude < signBit := Nat.mod_lt _ (by decide)

/-- The place in the total order tells the bits. -/
lemma toNat_bits : (x.bits.toNat : Int) =
    if x.totalKey < 0 then signBit - 1 - x.totalKey else x.totalKey := by
  have hlt := x.bits.toNat_lt
  unfold totalKey isNegative magnitude
  simp only [signBit, Nat.shiftLeft_eq, decide_eq_true_eq] at hlt ⊢
  split <;> split <;> omega

/-- The sign decides, then the magnitude, which the negative sign turns around. -/
lemma totalCompare_eq_magnitude : x.totalCompare y = (x.compareSigns y).then
    (if x.isNegative then compare y.magnitude x.magnitude
      else compare x.magnitude y.magnitude) := by
  unfold totalCompare totalKey compareSigns
  cases x.isNegative with
  | true =>
    cases y.isNegative with
    | true => exact compare_congr (by simp) (by simp)
    | false =>
      have hlt : -(x.magnitude : Int) - 1 < y.magnitude := by omega
      exact Int.compare_eq_lt.2 hlt
  | false =>
    cases y.isNegative with
    | true =>
      have hgt : -(y.magnitude : Int) - 1 < x.magnitude := by omega
      exact Int.compare_eq_gt.2 hgt
    | false => exact compare_congr Int.ofNat_lt Int.ofNat_lt

/-- The place on the number line decides, then the sign. -/
lemma totalCompare_eq_line :
    x.totalCompare y = (compare x.lineKey y.lineKey).then (x.compareSigns y) := by
  unfold totalCompare totalKey lineKey compareSigns
  cases x.isNegative with
  | true =>
    cases y.isNegative with
    | true =>
      rw [Ordering.then_eq]
      exact compare_congr (by simp) (by simp)
    | false =>
      -- a negative number lies to the left of a positive one, unless both are zero
      have hlt : -(x.magnitude : Int) - 1 < y.magnitude := by omega
      have hle : -(x.magnitude : Int) < y.magnitude ∨ -(x.magnitude : Int) = y.magnitude := by
        omega
      refine (Int.compare_eq_lt.2 hlt).trans (Ordering.then_eq_lt.2 ?_).symm
      exact hle.imp Int.compare_eq_lt.2 fun h => ⟨Int.compare_eq_eq.2 h, rfl⟩
  | false =>
    cases y.isNegative with
    | true =>
      have hgt : -(y.magnitude : Int) - 1 < x.magnitude := by omega
      have hge : -(y.magnitude : Int) < x.magnitude ∨ (x.magnitude : Int) = -y.magnitude := by
        omega
      refine (Int.compare_eq_gt.2 hgt).trans (Ordering.then_eq_gt.2 ?_).symm
      exact hge.imp Int.compare_eq_gt.2 fun h => ⟨Int.compare_eq_eq.2 h, rfl⟩
    | false => exact Ordering.then_eq.symm

variable {x y}

lemma toNat_bits_inj : x.bits.toNat = y.bits.toNat ↔ x = y := by
  obtain ⟨xs⟩ := x
  obtain ⟨ys⟩ := y
  rw [UInt64.toNat_inj, mk.injEq]

lemma totalCompare_eq_eq_iff : x.totalCompare y = .eq ↔ x = y := by
  refine ⟨fun h => ?_, fun h => h ▸ compare_self⟩
  have hkeys : x.totalKey = y.totalKey := Int.compare_eq_eq.1 h
  rw [← toNat_bits_inj, ← Int.natCast_inj, toNat_bits, toNat_bits, hkeys]

/-- Below the exponent, which is the same in all NaNs, stand the quiet bit and the payload. -/
lemma magnitude_of_isNaN (hx : x.isNaN = true) :
    x.magnitude = infinityMagnitude + (if x.isQuiet then hiddenBit / 2 else 0) + x.payload ∧
      x.payload < hiddenBit / 2 := by
  have hlt := x.magnitude_lt
  unfold isNaN at hx
  unfold isQuiet payload
  simp only [infinityMagnitude, hiddenBit, signBit, Nat.shiftLeft_eq, decide_eq_true_eq] at hx hlt ⊢
  split <;> omega

lemma compare_magnitude_of_isNaN (hx : x.isNaN = true) (hy : y.isNaN = true) :
    compare x.magnitude y.magnitude = comparePayloads x y := by
  obtain ⟨hxm, hxp⟩ := magnitude_of_isNaN hx
  obtain ⟨hym, hyp⟩ := magnitude_of_isNaN hy
  rw [hxm, hym]
  unfold comparePayloads
  cases x.isQuiet with
  | true =>
    cases y.isQuiet with
    | true => exact compare_congr (by omega) (by omega)
    | false =>
      rw [if_pos rfl, if_neg Bool.false_ne_true]
      exact Nat.compare_eq_gt.2 (by omega)
  | false =>
    cases y.isQuiet with
    | true =>
      rw [if_neg Bool.false_ne_true, if_pos rfl]
      exact Nat.compare_eq_lt.2 (by omega)
    | false => exact compare_congr (by omega) (by omega)

/-- A NaN is further from zero than any number. -/
lemma magnitude_lt_of_isNaN (hx : x.isNaN = false) (hy : y.isNaN = true) :
    x.magnitude < y.magnitude := by
  unfold isNaN at hx hy
  simp only [decide_eq_true_eq, decide_eq_false_iff_not] at hx hy
  omega

theorem totalCompare_eq_standardCompare : x.totalCompare y = x.standardCompare y := by
  unfold standardCompare
  cases hx : x.isNaN with
  | false =>
    cases hy : y.isNaN with
    | false => exact totalCompare_eq_line x y
    | true =>
      have hlt := magnitude_lt_of_isNaN hx hy
      rw [totalCompare_eq_magnitude, Nat.compare_eq_lt.2 hlt, Nat.compare_eq_gt.2 hlt]
      unfold compareSigns
      cases x.isNegative <;> cases y.isNegative <;> rfl
  | true =>
    cases hy : y.isNaN with
    | false =>
      have hlt := magnitude_lt_of_isNaN hy hx
      rw [totalCompare_eq_magnitude, Nat.compare_eq_lt.2 hlt, Nat.compare_eq_gt.2 hlt]
      unfold compareSigns
      cases x.isNegative <;> cases y.isNegative <;> rfl
    | true =>
      rw [totalCompare_eq_magnitude, compare_magnitude_of_isNaN hx hy,
        compare_magnitude_of_isNaN hy hx]

/-- Two zeros of which one is negative. -/
def OppositeZeros (x y : Binary64) : Prop :=
  x.magnitude = 0 ∧ y.magnitude = 0 ∧ x.isNegative ≠ y.isNegative

/-- Such zeros are one point of the number line, and no other two floats with signs apart are. -/
lemma oppositeZeros_iff :
    OppositeZeros x y ↔ compare x.lineKey y.lineKey = .eq ∧ x.compareSigns y ≠ .eq := by
  unfold OppositeZeros lineKey compareSigns
  rw [Int.compare_eq_eq]
  cases x.isNegative with
  | true =>
    cases y.isNegative with
    | true => exact iff_of_false (fun h => h.2.2 rfl) fun h => h.2 rfl
    | false =>
      have hzeros : x.magnitude = 0 ∧ y.magnitude = 0 ↔ -(x.magnitude : Int) = y.magnitude := by
        omega
      exact and_assoc.symm.trans (and_congr hzeros (iff_of_true nofun nofun))
  | false =>
    cases y.isNegative with
    | true =>
      have hzeros : x.magnitude = 0 ∧ y.magnitude = 0 ↔ (x.magnitude : Int) = -y.magnitude := by
        omega
      exact and_assoc.symm.trans (and_congr hzeros (iff_of_true nofun nofun))
    | false => exact iff_of_false (fun h => h.2.2 rfl) fun h => h.2 rfl

lemma compare?_of_oppositeZeros (h : OppositeZeros x y) : x.compare? y = some .eq := by
  have hx : x.isNaN = false := by simp [isNaN, h.1]
  have hy : y.isNaN = false := by simp [isNaN, h.2.1]
  simp [compare?, hx, hy, (oppositeZeros_iff.1 h).1]

lemma eq_totalCompare_iff {o : Ordering} (h : x.compare? y = some o) :
    o = x.totalCompare y ↔ ¬OppositeZeros x y := by
  have ho : compare x.lineKey y.lineKey = o := by
    unfold compare? at h
    split at h
    · cases h
    · exact Option.some.inj h
  rw [totalCompare_eq_line, oppositeZeros_iff, ho]
  cases o <;> simp [eq_comm]

end Binary64

/-- The code points of a text. -/
def codePoints (s : String) : List Nat := s.toList.map Char.toNat

lemma compare_map_toNat_eq_lt_iff (cs ds : List Char) :
    compare (cs.map Char.toNat) (ds.map Char.toNat) = .lt ↔ cs < ds := by
  induction cs generalizing ds with
  | nil => cases ds <;> simp
  | cons c cs ih =>
    cases ds with
    | nil => simp
    | cons d ds =>
      rw [List.map_cons, List.map_cons, List.compare_cons_cons, Ordering.then_eq_lt, ih,
        Nat.compare_eq_lt, Nat.compare_eq_eq, List.cons_lt_cons_iff, Char.toNat_inj]
      rfl

lemma compare_codePoints (s t : String) :
    compare s t = compare (codePoints s) (codePoints t) := by
  have hlt (s t : String) : compare s t = .lt ↔ compare (codePoints s) (codePoints t) = .lt := by
    rw [codePoints, codePoints, compare_map_toNat_eq_lt_iff, ← String.lt_iff]
    exact compareOfLessAndEq_eq_lt
  apply eq_of_lt_iff_of_gt_iff (hlt s t)
  rw [OrientedCmp.gt_iff_lt, OrientedCmp.gt_iff_lt]
  exact hlt t s

namespace Value

variable {a b : Value}

/-- Values are tied just if they are equal. -/
lemma compare_eq_eq_iff : a.compare b = .eq ↔ a = b := by
  cases a <;> cases b <;>
    simp [Value.compare, rank, Binary64.totalCompare_eq_eq_iff, Int64.toInt_inj]

lemma identity_inj : a.identity = b.identity ↔ a = b := by
  cases a <;> cases b
  case bool.bool x y => cases x <;> cases y <;> decide
  case float.float x y =>
    simp only [identity, Prod.mk.injEq, Int.natCast_inj, Binary64.toNat_bits_inj, float.injEq,
      true_and, and_true]
  all_goals simp [identity, Int64.toInt_inj]

/-- Two zeros of which one is negative. -/
def OppositeZeros : Value → Value → Prop
  | float x, float y => x.OppositeZeros y
  | _, _ => False

lemma strictCompare?_of_oppositeZeros (h : OppositeZeros a b) :
    a.strictCompare? b = some .eq := by
  cases a <;> cases b <;> first | exact h.elim | exact Binary64.compare?_of_oppositeZeros h

lemma eq_compare_iff {o : Ordering} (h : a.strictCompare? b = some o) :
    o = a.compare b ↔ ¬OppositeZeros a b := by
  cases a <;> cases b <;>
    simp only [strictCompare?, OppositeZeros, not_false_eq_true, iff_true] at h ⊢
  case bool.bool => exact (Option.some.inj h).symm
  case int.int => exact (Option.some.inj h).symm
  case float.float => exact Binary64.eq_totalCompare_iff h
  case text.text => exact (Option.some.inj h).symm
  all_goals cases h

end Value

/-- Keys agree if their values are tied one by one. -/
def tiedKeys (k l : List Value) : Bool := k.isEqv l fun a b => a.compare b == .eq

lemma tiedKeys_eq_beq (k l : List Value) : tiedKeys k l = (k == l) := by
  have htied : (fun a b : Value => a.compare b == .eq) = fun a b => a == b := by
    funext a b
    rw [Bool.eq_iff_iff, beq_iff_eq, beq_iff_eq, Value.compare_eq_eq_iff]
  rw [tiedKeys, htied]
  exact List.beq_eq_isEqv.symm

/-- A row key under a hash function, which sees of each value what identifies it. -/
structure HashedKey (hash : List (Nat × Int × String) → UInt64) where
  values : List Value

namespace HashedKey

variable {hash : List (Nat × Int × String) → UInt64}

instance : BEq (HashedKey hash) := ⟨fun k l => tiedKeys k.values l.values⟩

instance : Hashable (HashedKey hash) := ⟨fun k => hash (k.values.map Value.identity)⟩

lemma beq_iff {k l : HashedKey hash} : (k == l) = true ↔ k = l := by
  obtain ⟨ks⟩ := k
  obtain ⟨ls⟩ := l
  have htied : (mk ks == (mk ls : HashedKey hash)) = tiedKeys ks ls := rfl
  rw [htied, tiedKeys_eq_beq, beq_iff_eq, mk.injEq]

instance : LawfulBEq (HashedKey hash) where
  rfl := beq_iff.2 rfl
  eq_of_beq := beq_iff.1

end HashedKey

namespace Entity

variable {ρ : Type} (E : Entity ρ)

def hashedKey (hash : List (Nat × Int × String) → UInt64) (row : ρ) : HashedKey hash :=
  ⟨E.rowKey row⟩

lemma distinctRows_concat (rows : List ρ) (row : ρ) :
    E.distinctRows (rows ++ [row]) =
      if rows.any fun r => tiedKeys (E.rowKey r) (E.rowKey row) then E.distinctRows rows
      else E.distinctRows rows ++ [row] := by
  simp only [tiedKeys_eq_beq]
  exact firsts_concat E.rowKey rows row

/-- Which rows are kept does not depend on the hash function. -/
lemma firsts_hashedKey (hash : List (Nat × Int × String) → UInt64) (rows : List ρ) :
    firsts (E.hashedKey hash) rows = E.distinctRows rows := by
  induction rows using List.reverseRecOn with
  | nil => rfl
  | append_singleton rows row ih =>
    rw [firsts_concat, distinctRows_concat, ih]
    rfl

end Entity

namespace Value

/-- The order of all values is total and ties equal values alone, which are those that feed the same
to a hasher; on floats it is the total order of the standard, and on text the order of code points.
Where the order of conditions is defined it is the same, but that it ties zeros of opposite sign.
So under any hash function DISTINCT keeps a row just if no row before it has a key tied with its
own. -/
theorem order_coheres {ρ : Type} (E : Entity ρ) :
    IsTotalPreorder Value.compare ∧
    (∀ a b : Value, (a.compare b).isLE → (b.compare a).isLE → a = b) ∧
    (∀ a b : Value, a.compare b = .eq ↔ a = b) ∧
    (∀ a b : Value, a.identity = b.identity ↔ a = b) ∧
    (∀ x y : Binary64, (float x).compare (float y) = x.standardCompare y) ∧
    (∀ s t : String, (text s).compare (text t) = compare (codePoints s) (codePoints t)) ∧
    (∀ (a b : Value) (o : Ordering), a.strictCompare? b = some o →
      (o = a.compare b ↔ ¬OppositeZeros a b)) ∧
    (∀ a b : Value, OppositeZeros a b → a.strictCompare? b = some .eq) ∧
    (∀ (hash : List (Nat × Int × String) → UInt64) (flow : Flow ρ),
      (flow.distinct (E.hashedKey hash)).rows = E.distinctRows flow.rows) ∧
    ∀ rows row, E.distinctRows (rows ++ [row]) =
      if rows.any fun r => tiedKeys (E.rowKey r) (E.rowKey row) then E.distinctRows rows
      else E.distinctRows rows ++ [row] := by
  refine ⟨isTotalPreorder _, fun a b hab hba => ?_, fun _ _ => compare_eq_eq_iff,
    fun _ _ => identity_inj, fun _ _ => Binary64.totalCompare_eq_standardCompare,
    compare_codePoints, fun _ _ _ => eq_compare_iff, fun _ _ => strictCompare?_of_oppositeZeros,
    fun hash flow => ?_, E.distinctRows_concat⟩
  · exact compare_eq_eq_iff.1 (OrientedCmp.isLE_antisymm hab hba)
  · rw [Flow.rows_distinct, E.firsts_hashedKey]

theorem order_coheres_zeros :
    let E := Entity.ofColumns "Reading" "id" ["level", "unit"]
    let row (level : Value) : Record := ⟨[("level", level), ("note", .text "n")]⟩
    let zero := float ⟨0⟩
    let negative := float (.ofMagnitude true 0)
    OppositeZeros negative zero ∧ negative.strictCompare? zero = some .eq ∧
      .eq ≠ negative.compare zero ∧
      E.distinctRows [row zero, row negative] = E.distinctRows [row zero] ++ [row negative] ∧
      E.distinctRows [row zero, row negative, row zero] =
        E.distinctRows [row zero, row negative] := by
  intro E row zero negative
  have hzeros : OppositeZeros negative zero := ⟨by decide, by decide, by decide⟩
  obtain ⟨-, -, -, -, -, -, hstrict, htied, -, hdistinct⟩ := order_coheres E
  have heq := htied negative zero hzeros
  refine ⟨hzeros, heq, fun h => (hstrict negative zero .eq heq).1 h hzeros, ?_, ?_⟩
  · exact (hdistinct [row zero] (row negative)).trans (if_neg (by decide))
  · exact (hdistinct [row zero, row negative] (row zero)).trans (if_pos (by decide))

end Value
end Pushdown
