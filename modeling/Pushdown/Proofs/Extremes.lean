import Mathlib.Data.List.Induction
import Pushdown.Pipeline.Terminal
import Pushdown.Proofs.Replay

/-!
# Extremes

Of the rows that no other row precedes, the first is the least one. A pass that gives up a row only
for one that strictly precedes it ends with the least row, and a stable sort puts it to the front.
MIN is that pass, and MAX is the same pass in the opposite order.
-/

namespace Pushdown

open Std

section Least

variable {α : Type} (cmp : α → α → Ordering) {l : List α} {m r : α}

/-- `m` precedes everything in front of it, and nothing behind precedes `m`. -/
def IsFirstLeast (l : List α) (m : α) : Prop :=
  ∃ before after, l = before ++ m :: after ∧
    (∀ a ∈ before, cmp m a = .lt) ∧ ∀ a ∈ after, (cmp m a).isLE

variable {cmp}

lemma IsFirstLeast.mem (h : IsFirstLeast cmp l m) : m ∈ l := by
  obtain ⟨before, after, rfl, -, -⟩ := h
  simp

lemma isFirstLeast_singleton (m : α) : IsFirstLeast cmp [m] m :=
  ⟨[], [], rfl, nofun, nofun⟩

variable [TransCmp cmp]

lemma IsFirstLeast.isLE (h : IsFirstLeast cmp l m) : ∀ a ∈ l, (cmp m a).isLE := by
  obtain ⟨before, after, rfl, hbefore, hafter⟩ := h
  refine List.forall_mem_append.2 ⟨fun a ha => ?_, List.forall_mem_cons.2 ⟨?_, hafter⟩⟩
  · simp [hbefore a ha]
  · simp [ReflCmp.compare_self]

/-- A new element that precedes the least one precedes all. -/
lemma IsFirstLeast.concat_of_lt (h : IsFirstLeast cmp l m) (hr : cmp r m = .lt) :
    IsFirstLeast cmp (l ++ [r]) r :=
  ⟨l, [], rfl, fun a ha => TransCmp.lt_of_lt_of_isLE hr (h.isLE a ha), nofun⟩

lemma IsFirstLeast.concat_of_ne_lt (h : IsFirstLeast cmp l m) (hr : cmp r m ≠ .lt) :
    IsFirstLeast cmp (l ++ [r]) m := by
  obtain ⟨before, after, rfl, hbefore, hafter⟩ := h
  refine ⟨before, after ++ [r], by simp, hbefore, ?_⟩
  refine List.forall_mem_append.2 ⟨hafter, List.forall_mem_singleton.2 ?_⟩
  have hswap : cmp m r = (cmp r m).swap := OrientedCmp.eq_swap
  rw [hswap]
  cases hc : cmp r m with
  | lt => exact absurd hc hr
  | eq => rfl
  | gt => rfl

/-- The front of a stable sort is tied with the least element, and of the ties it came first. -/
lemma IsFirstLeast.head?_stableSort (h : IsFirstLeast cmp l m) :
    (stableSort cmp l).head? = some m := by
  have hm : m ∈ stableSort cmp l := (stableSort_perm cmp l).mem_iff.2 h.mem
  have hfirst : (l.filter (tied cmp m)).head? = some m := by
    obtain ⟨before, after, rfl, hbefore, -⟩ := h
    have hnone : before.filter (tied cmp m) = [] :=
      List.filter_eq_nil_iff.2 fun a ha => by simp [hbefore a ha]
    simp [hnone, ReflCmp.compare_self]
  rw [← filter_stableSort_of_tied cmp (fun _ _ => tied_of_tied cmp)] at hfirst
  have harranged := arranged_stableSort cmp l
  cases hsort : stableSort cmp l with
  | nil =>
    rw [hsort] at hm
    cases hm
  | cons a as =>
    have hle : (cmp m a).isLE :=
      h.isLE a ((stableSort_perm cmp l).mem_iff.1 (hsort ▸ List.mem_cons_self))
    rw [hsort] at hm hfirst harranged
    have hge : (cmp a m).isLE := by
      rcases List.mem_cons.1 hm with rfl | hm
      · exact hle
      · exact List.rel_of_pairwise_cons harranged hm
    have htied : tied cmp m a = true :=
      (tied_iff cmp).2 (OrientedCmp.isLE_antisymm hle hge)
    rwa [List.filter_cons, if_pos htied] at hfirst

end Least

namespace Terminal

variable {ρ : Type}

lemma best?_eq_none_iff (better : ρ → ρ → Bool) (rows : List ρ) :
    best? better rows = none ↔ rows = [] := by
  cases rows with
  | nil => exact iff_of_true rfl rfl
  | cons row rows => exact iff_of_false nofun nofun

lemma best?_concat {better : ρ → ρ → Bool} {rows : List ρ} {kept : ρ}
    (h : best? better rows = some kept) (row : ρ) :
    best? better (rows ++ [row]) = some (if better row kept then row else kept) := by
  cases rows with
  | nil => cases h
  | cons first rows =>
    obtain rfl := Option.some.inj h
    rw [List.cons_append, best?, List.foldl_append]
    rfl

/-- Keeping a row until another one strictly precedes it keeps the least row in the end. -/
lemma isFirstLeast_best? {cmp : ρ → ρ → Ordering} [TransCmp cmp] {rows : List ρ} {kept : ρ}
    (h : best? (fun a b => cmp a b == .lt) rows = some kept) : IsFirstLeast cmp rows kept := by
  induction rows using List.reverseRecOn generalizing kept with
  | nil => cases h
  | append_singleton rows row ih =>
    cases hbest : best? (fun a b => cmp a b == .lt) rows with
    | none =>
      obtain rfl := (best?_eq_none_iff _ rows).1 hbest
      obtain rfl := Option.some.inj h
      exact isFirstLeast_singleton row
    | some earlier =>
      rw [best?_concat hbest] at h
      obtain rfl := Option.some.inj h
      split
      · next hlt => exact (ih hbest).concat_of_lt (beq_iff_eq.1 hlt)
      · next hlt => exact (ih hbest).concat_of_ne_lt fun heq => hlt (beq_iff_eq.2 heq)

theorem best?_eq_head?_stableSort (cmp : ρ → ρ → Ordering) [TransCmp cmp] (rows : List ρ) :
    best? (fun a b => cmp a b == .lt) rows = (stableSort cmp rows).head? := by
  cases hbest : best? (fun a b => cmp a b == .lt) rows with
  | none =>
    obtain rfl := (best?_eq_none_iff _ rows).1 hbest
    simp [stableSort]
  | some kept => exact (isFirstLeast_best? hbest).head?_stableSort.symm

lemma best?_eq_some_iff (cmp : ρ → ρ → Ordering) [TransCmp cmp] {rows : List ρ} {row : ρ} :
    best? (fun a b => cmp a b == .lt) rows = some row ↔ IsFirstLeast cmp rows row := by
  refine ⟨isFirstLeast_best?, fun h => ?_⟩
  rw [best?_eq_head?_stableSort, h.head?_stableSort]

end Terminal

namespace Comparator

variable {ρ : Type}

/-- `d` is the opposite order of `c`. -/
def Reverses (E : Entity ρ) (d c : Comparator ρ) : Prop :=
  ∀ a b, d.compare E a b = (c.compare E a b).swap

lemma IsOrder.transCmp_swap (E : Entity ρ) {c : Comparator ρ} (h : c.IsOrder) :
    TransCmp fun a b => (c.compare E a b).swap :=
  have := h.transCmp E
  transCmp_apply _ .descending

lemma Reverses.sort_eq {E : Entity ρ} {c d : Comparator ρ} (h : d.Reverses E c) (rows : List ρ) :
    d.sort E rows = stableSort (fun a b => (c.compare E a b).swap) rows := by
  rw [sort_eq_stableSort, funext fun a => funext (h a)]

end Comparator

namespace Terminal

variable {ρ : Type} {E : Entity ρ} {c : Comparator ρ}

lemma evaluate_findFirst (flow : Flow ρ) :
    findFirst.evaluate E flow = .element flow.rows.head? := by
  simp [evaluate, pulled, List.head?_take]

lemma evaluate_min (flow : Flow ρ) :
    (min c).evaluate E flow = .element (best? (fun a b => c.compare E a b == .lt) flow.rows) := rfl

/-- MAX is MIN in the opposite order. -/
lemma evaluate_max (flow : Flow ρ) :
    (max c).evaluate E flow =
      .element (best? (fun a b => (c.compare E a b).swap == .lt) flow.rows) := by
  have hopposite : (fun a b => c.compare E a b == .gt) =
      fun a b => (c.compare E a b).swap == .lt := by
    funext a b
    cases c.compare E a b <;> rfl
  rw [← hopposite]
  rfl

/-- MIN and MAX answer what comes first once the rows are sorted, upwards or downwards. That is the
earliest of the extreme rows, and no row just if there are none. -/
theorem extremes_come_first (E : Entity ρ) {c d : Comparator ρ} (hc : c.IsOrder)
    (hd : d.Reverses E c) (flow : Flow ρ) :
    (∃ upwards, Operation.replay? [.sortedBy E c] flow = some upwards ∧
      (min c).evaluate E flow = findFirst.evaluate E upwards) ∧
    (∃ downwards, Operation.replay? [.sortedBy E d] flow = some downwards ∧
      (max c).evaluate E flow = findFirst.evaluate E downwards) ∧
    (∀ row, (min c).evaluate E flow = .element (some row) ↔
      IsFirstLeast (fun a b => c.compare E a b) flow.rows row) ∧
    (∀ row, (max c).evaluate E flow = .element (some row) ↔
      IsFirstLeast (fun a b => (c.compare E a b).swap) flow.rows row) ∧
    ((min c).evaluate E flow = .element none ↔ flow.rows = []) ∧
    ((max c).evaluate E flow = .element none ↔ flow.rows = []) := by
  have := hc.transCmp E
  have := hc.transCmp_swap E
  have hsorted (e : Comparator ρ) :
      Operation.replay? [.sortedBy E e] flow = some (flow.rearrange (e.sort E)) := rfl
  simp only [evaluate_min, evaluate_max, evaluate_findFirst, TerminalValue.element.injEq,
    best?_eq_some_iff, best?_eq_none_iff, implies_true, and_true]
  refine ⟨⟨_, hsorted c, ?_⟩, ⟨_, hsorted d, ?_⟩⟩
  · rw [best?_eq_head?_stableSort, Flow.rows_rearrange, Comparator.sort_eq_stableSort]
  · rw [best?_eq_head?_stableSort, Flow.rows_rearrange, hd.sort_eq]

theorem extremes_come_first_records :
    let E := Entity.ofColumns "Person" "id" ["id", "city"]
    let row (n : Int64) (city : Value) : Record := ⟨[("id", .int n), ("city", city)]⟩
    let wider (a b : Record) := compare a.cells.length b.cells.length
    let c : Comparator Record := .chain [.column "city" .ascending, .chain [], .closure ⟨0, wider⟩]
    let d : Comparator Record :=
      .chain [.column "city" .descending, .closure ⟨1, fun a b => wider b a⟩]
    let flow := (Flow.ofRows [row 1 (.text "Oslo"), row 2 .null, row 3 .null,
      row 4 (.text "Oslo"), row 5 (.text "Bern")]).observe ⟨0, "seen"⟩
    c.IsOrder ∧ d.Reverses E c ∧
    (∃ upwards, Operation.replay? [.sortedBy E c] flow = some upwards ∧
      (min c).evaluate E flow = findFirst.evaluate E upwards) ∧
    (∃ downwards, Operation.replay? [.sortedBy E d] flow = some downwards ∧
      (max c).evaluate E flow = findFirst.evaluate E downwards) ∧
    (min c).evaluate E flow = .element (some (row 2 .null)) ∧
    (max c).evaluate E flow = .element (some (row 1 (.text "Oslo"))) := by
  intro E row wider c d flow
  have hwider : TransCmp wider :=
    inferInstanceAs (TransCmp (compareOn fun r : Record => r.cells.length))
  have hc : c.IsOrder := ⟨trivial, trivial, hwider, trivial⟩
  have hd : d.Reverses E c := by
    intro a b
    have hswap : wider b a = (wider a b).swap := OrientedCmp.eq_swap
    simp [c, d, Comparator.compare, Comparator.compareChain, Direction.apply, hswap,
      Ordering.swap_then]
  obtain ⟨hupwards, hdownwards, hmin, hmax, -, -⟩ := extremes_come_first E hc hd flow
  have hrows : flow.rows = [row 1 (.text "Oslo"), row 2 .null, row 3 .null,
      row 4 (.text "Oslo"), row 5 (.text "Bern")] := by
    simp [flow]
  refine ⟨hc, hd, hupwards, hdownwards, (hmin _).2 ?_, (hmax _).2 ?_⟩
  · exact ⟨[row 1 (.text "Oslo")], [row 3 .null, row 4 (.text "Oslo"), row 5 (.text "Bern")],
      hrows, by decide, by decide⟩
  · exact ⟨[], [row 2 .null, row 3 .null, row 4 (.text "Oslo"), row 5 (.text "Bern")],
      hrows, by decide, by decide⟩

end Terminal
end Pushdown
