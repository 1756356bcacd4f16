import Pushdown.Condition.Comparator
import Pushdown.Proofs.StableSorting

/-!
# Orders on rows

All values are totally ordered, so a comparator without closures orders the rows of any entity, and
one with closures does if each closure is a total preorder. Two sorts in a row are then one sort by
the later comparator first.
-/

namespace Pushdown

open Std

/-- Any two elements compare, the other way round with the opposite result, and no element precedes
itself. -/
structure IsTotalPreorder {α : Type} (cmp : α → α → Ordering) : Prop where
  refl : ∀ a, cmp a a = .eq
  swap : ∀ a b, cmp b a = (cmp a b).swap
  trans : ∀ a b c, (cmp a b).isLE → (cmp b c).isLE → (cmp a c).isLE
  total : ∀ a b, (cmp a b).isLE ∨ (cmp b a).isLE

lemma isTotalPreorder {α : Type} (cmp : α → α → Ordering) [h : TransCmp cmp] :
    IsTotalPreorder cmp where
  refl _ := ReflCmp.compare_self
  swap _ _ := h.eq_swap
  trans _ _ _ := h.isLE_trans
  total a b := Bool.or_eq_true_iff.1 (isLE_or_isLE cmp a b)

namespace Value

/-- The payload of a value as a number, zero for text and null. -/
def orderNumber : Value → Int
  | null | text _ => 0
  | bool b => if b then 1 else 0
  | int n => n.toInt
  | float x => x.totalKey

/-- The payload of a value as text, empty for all but text. -/
def orderText : Value → String
  | text s => s
  | _ => ""

lemma compare_eq_compareLex (a b : Value) :
    a.compare b =
      compareLex (compareOn rank) (compareLex (compareOn orderNumber) (compareOn orderText)) a b := by
  cases a with
  | null =>
    cases b with
    | _ => rfl
  | bool x =>
    cases b with
    | bool y => cases x <;> cases y <;> rfl
    | _ => rfl
  | int n =>
    cases b with
    | int m => simp [Value.compare, compareLex, compareOn, rank, orderNumber, orderText]
    | _ => rfl
  | float x =>
    cases b with
    | float y =>
      simp [Value.compare, Binary64.totalCompare, compareLex, compareOn, rank, orderNumber,
        orderText]
    | _ => rfl
  | text s =>
    cases b with
    | _ => rfl

instance : TransCmp Value.compare := by
  have h : Value.compare =
      compareLex (compareOn rank) (compareLex (compareOn orderNumber) (compareOn orderText)) := by
    funext a b
    exact compare_eq_compareLex a b
  rw [h]
  infer_instance

end Value

namespace Comparator

variable {ρ : Type}

mutual

/-- Is every closure of the comparator a total preorder? -/
def IsOrder : Comparator ρ → Prop
  | column .. | natural => True
  | chain keys => AreOrders keys
  | closure f => TransCmp f.fn

def AreOrders : List (Comparator ρ) → Prop
  | [] => True
  | key :: keys => IsOrder key ∧ AreOrders keys

end

lemma areOrders_iff (ks : List (Comparator ρ)) : AreOrders ks ↔ ∀ k ∈ ks, k.IsOrder := by
  induction ks with
  | nil => simp [AreOrders]
  | cons k ks ih => simp [AreOrders, ih]

lemma areOrders_append {ks ls : List (Comparator ρ)} (hks : AreOrders ks) (hls : AreOrders ls) :
    AreOrders (ks ++ ls) := by
  rw [areOrders_iff] at hks hls ⊢
  exact List.forall_mem_append.2 ⟨hks, hls⟩

lemma transCmp_apply {α : Type} (cmp : α → α → Ordering) [TransCmp cmp] (d : Direction) :
    TransCmp fun a b => d.apply (cmp a b) := by
  cases d with
  | ascending => exact inferInstanceAs (TransCmp cmp)
  | descending =>
    have h : (fun a b => Direction.descending.apply (cmp a b)) = fun a b => cmp b a := by
      funext a b
      exact OrientedCmp.eq_swap.symm
    rw [h]
    infer_instance

lemma transCmp_read (E : Entity ρ) (name : String) :
    TransCmp fun a b : ρ => (E.read a name).compare (E.read b name) :=
  have h : TransCmp Value.compare := inferInstance
  { eq_swap := h.eq_swap, isLE_trans := h.isLE_trans }

lemma transCmp_eq {α : Type} : TransCmp fun _ _ : α => Ordering.eq where
  eq_swap := rfl
  isLE_trans _ _ := rfl

mutual

theorem IsOrder.transCmp (E : Entity ρ) :
    ∀ {c : Comparator ρ}, c.IsOrder → TransCmp fun a b => c.compare E a b
  | column name direction, _ => by
    have := transCmp_read E name
    simp only [compare]
    exact transCmp_apply _ direction
  | natural, _ => by
    simp only [compare]
    exact transCmp_read E E.primaryKey
  | chain keys, h => by
    simp only [compare]
    rw [IsOrder] at h
    exact AreOrders.transCmp E h
  | closure f, h => by
    simp only [compare]
    rwa [IsOrder] at h

theorem AreOrders.transCmp (E : Entity ρ) :
    ∀ {keys : List (Comparator ρ)}, AreOrders keys → TransCmp fun a b => compareChain E a b keys
  | [], _ => by
    simp only [compareChain]
    exact transCmp_eq
  | key :: keys, h => by
    rw [AreOrders] at h
    have hkey := IsOrder.transCmp E h.1
    have hkeys := AreOrders.transCmp E h.2
    simp only [compareChain]
    exact inferInstanceAs (TransCmp (compareLex (fun a b => key.compare E a b)
      fun a b => compareChain E a b keys))

end

mutual

theorem compareChain_keys (E : Entity ρ) (a b : ρ) :
    ∀ c : Comparator ρ, compareChain E a b c.keys = c.compare E a b
  | column .. | natural | closure _ => by simp [keys, compareChain]
  | chain ks => by
    rw [keys, compare]
    exact compareChain_keysOfChain E a b ks

theorem compareChain_keysOfChain (E : Entity ρ) (a b : ρ) :
    ∀ ks : List (Comparator ρ), compareChain E a b (keysOfChain ks) = compareChain E a b ks
  | [] => rfl
  | k :: ks => by
    rw [keysOfChain, compareChain_append, compareChain_keys E a b k,
      compareChain_keysOfChain E a b ks, compareChain]

end

lemma compare_andThen (E : Entity ρ) (c d : Comparator ρ) (a b : ρ) :
    (c.andThen d).compare E a b = (c.compare E a b).then (d.compare E a b) := by
  rw [andThen, compare, compareChain_append, compareChain_keys, compareChain_keys]

mutual

theorem IsOrder.keys : ∀ {c : Comparator ρ}, c.IsOrder → AreOrders c.keys
  | column .., _ | natural, _ => by simp [Comparator.keys, AreOrders, IsOrder]
  | closure _, h => by
    simp only [Comparator.keys, AreOrders, and_true]
    exact h
  | chain ks, h => by
    rw [Comparator.keys]
    rw [IsOrder] at h
    exact AreOrders.keysOfChain h

theorem AreOrders.keysOfChain :
    ∀ {ks : List (Comparator ρ)}, AreOrders ks → AreOrders (Comparator.keysOfChain ks)
  | [], h => h
  | k :: ks, h => by
    rw [AreOrders] at h
    rw [Comparator.keysOfChain]
    exact areOrders_append (IsOrder.keys h.1) (AreOrders.keysOfChain h.2)

end

lemma IsOrder.andThen {c d : Comparator ρ} (hc : c.IsOrder) (hd : d.IsOrder) :
    (c.andThen d).IsOrder := by
  rw [Comparator.andThen, IsOrder]
  exact areOrders_append hc.keys hd.keys

lemma sort_eq_stableSort (E : Entity ρ) (c : Comparator ρ) (rows : List ρ) :
    c.sort E rows = stableSort (fun a b => c.compare E a b) rows := rfl

lemma sort_congr {E : Entity ρ} {c d : Comparator ρ}
    (h : ∀ a b, c.compare E a b = d.compare E a b) (rows : List ρ) :
    c.sort E rows = d.sort E rows := by
  have heq : (fun a b => c.compare E a b) = fun a b => d.compare E a b := by
    funext a b
    exact h a b
  rw [sort_eq_stableSort, sort_eq_stableSort, heq]

@[simp] lemma length_sort (E : Entity ρ) (c : Comparator ρ) (rows : List ρ) :
    (c.sort E rows).length = rows.length :=
  length_stableSort _ rows

/-- Sorting by `c` and then by `d` is sorting by `d`, with `c` between ties. -/
theorem sort_sort (E : Entity ρ) {c d : Comparator ρ} (hc : c.IsOrder) (hd : d.IsOrder)
    (rows : List ρ) : d.sort E (c.sort E rows) = (d.andThen c).sort E rows := by
  have := hc.transCmp E
  have := hd.transCmp E
  simp only [sort_eq_stableSort, stableSort_stableSort, compare_andThen]
  rfl

end Comparator
end Pushdown
