import Std.Data.HashSet

/-! # Distinct elements

Elements are told apart by a key. `firsts` keeps the first element of each key, in order: the first
element, and then of the others those with another key.
-/

namespace Pushdown

variable {κ α : Type} [BEq κ] [Hashable κ]

/-- The elements whose key is neither in `seen` nor the key of an element before them. -/
def firstsAfter (key : α → κ) : Std.HashSet κ → List α → List α
  | _, [] => []
  | seen, a :: as =>
    if seen.contains (key a) then firstsAfter key seen as
    else a :: firstsAfter key (seen.insert (key a)) as

def firsts (key : α → κ) (as : List α) : List α := firstsAfter key ∅ as

@[simp]
theorem firsts_nil (key : α → κ) : firsts key [] = [] := rfl

theorem firstsAfter_concat [EquivBEq κ] [LawfulHashable κ] (key : α → κ) (seen : Std.HashSet κ)
    (as : List α) (a : α) :
    firstsAfter key seen (as ++ [a]) =
      if seen.contains (key a) || as.any fun b => key b == key a then firstsAfter key seen as
      else firstsAfter key seen as ++ [a] := by
  induction as generalizing seen with
  | nil => simp [firstsAfter]
  | cons b as ih =>
    rw [List.cons_append, firstsAfter, firstsAfter, List.any_cons]
    cases hb : seen.contains (key b) with
    | true =>
      have hseen : (key b == key a) = true → seen.contains (key a) = true :=
        fun hab => (Std.HashSet.contains_congr hab).symm.trans hb
      simp only [if_true, ih]
      congr 1
      cases hab : key b == key a with
      | true => simp [hseen hab]
      | false => simp
    | false =>
      rw [if_neg Bool.false_ne_true, if_neg Bool.false_ne_true, ih, Std.HashSet.contains_insert,
        Bool.or_assoc, Bool.or_left_comm, apply_ite (List.cons b), List.cons_append]

/-- A new element at the end is kept unless there is one of its key before. -/
theorem firsts_concat [EquivBEq κ] [LawfulHashable κ] (key : α → κ) (as : List α) (a : α) :
    firsts key (as ++ [a]) =
      if as.any fun b => key b == key a then firsts key as else firsts key as ++ [a] := by
  rw [firsts, firstsAfter_concat, Std.HashSet.contains_empty, Bool.false_or]
  rfl

variable [LawfulBEq κ]

theorem firstsAfter_insert (key : α → κ) (k : κ) (seen : Std.HashSet κ) (as : List α) :
    firstsAfter key (seen.insert k) as =
      (firstsAfter key seen as).filter fun a => !(k == key a) := by
  induction as generalizing k seen with
  | nil => rfl
  | cons a as ih =>
    unfold firstsAfter
    rw [Std.HashSet.contains_insert]
    cases hs : seen.contains (key a) with
    | true => simpa using ih k seen
    | false =>
      cases hk : k == key a with
      | true =>
        obtain rfl := eq_of_beq hk
        simp [ih]
      | false =>
        simp [hk, ih, List.filter_filter, Bool.and_comm]

theorem firsts_cons (key : α → κ) (a : α) (as : List α) :
    firsts key (a :: as) = a :: (firsts key as).filter fun b => !(key a == key b) := by
  unfold firsts
  rw [firstsAfter, Std.HashSet.contains_empty, firstsAfter_insert]
  simp

end Pushdown
