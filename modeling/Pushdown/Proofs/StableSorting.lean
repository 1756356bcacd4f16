import Mathlib.Tactic.Lemma
import Pushdown.Data.Distinct

/-!
# Stable sorting

A list in order, in which elements that are tied keep the order they came in, is determined by the
elements. So two ways of sorting agree if they agree within each class of ties. This gives the laws
by which sorts fuse, and by which filters and DISTINCT move past a sort.
-/

namespace Pushdown

open Std

section Sorting

variable {α : Type} (cmp : α → α → Ordering)

/-- Sorts by `cmp`; elements that it leaves tied keep their order. -/
def stableSort (l : List α) : List α := l.mergeSort fun a b => cmp a b != .gt

/-- Does `cmp` leave `b` tied with `a`? -/
def tied (a b : α) : Bool := cmp a b == .eq

/-- No element stands in front of one that `cmp` puts before it. -/
def Arranged (l : List α) : Prop := l.Pairwise fun a b => (cmp a b).isLE

lemma bne_gt_eq_isLE (o : Ordering) : (o != .gt) = o.isLE := by
  cases o <;> rfl

@[simp] lemma tied_iff {a b : α} : tied cmp a b = true ↔ cmp a b = .eq := by
  simp [tied]

lemma filter_filter_comm (p q : α → Bool) (l : List α) :
    (l.filter p).filter q = (l.filter q).filter p := by
  simp only [List.filter_filter, Bool.and_comm]

lemma stableSort_perm (l : List α) : (stableSort cmp l).Perm l := l.mergeSort_perm _

@[simp] lemma length_stableSort (l : List α) : (stableSort cmp l).length = l.length :=
  (stableSort_perm cmp l).length_eq

variable [TransCmp cmp]

lemma isLE_or_isLE (a b : α) : ((cmp a b).isLE || (cmp b a).isLE) = true := by
  cases h : cmp a b with
  | gt => simp [OrientedCmp.lt_of_gt h]
  | _ => simp

lemma arranged_stableSort (l : List α) : Arranged cmp (stableSort cmp l) := by
  unfold Arranged stableSort
  simp only [bne_gt_eq_isLE]
  exact List.pairwise_mergeSort (fun _ _ _ => TransCmp.isLE_trans) (isLE_or_isLE cmp) l

lemma sublist_stableSort {l m : List α} (hm : Arranged cmp m) (h : m.Sublist l) :
    m.Sublist (stableSort cmp l) := by
  unfold stableSort
  simp only [bne_gt_eq_isLE]
  exact List.sublist_mergeSort (fun _ _ _ => TransCmp.isLE_trans) (isLE_or_isLE cmp) hm h

lemma tied_of_tied {a b c : α} (hb : tied cmp a b = true) (hc : tied cmp a c = true) :
    cmp b c = .eq :=
  TransCmp.eq_trans (OrientedCmp.eq_symm ((tied_iff cmp).1 hb)) ((tied_iff cmp).1 hc)

/-- Elements that are tied with one another keep their order. -/
lemma filter_stableSort_of_tied {p : α → Bool}
    (hp : ∀ a b, p a = true → p b = true → cmp a b = .eq) (l : List α) :
    (stableSort cmp l).filter p = l.filter p := by
  have hties : Arranged cmp (l.filter p) := by
    apply List.Pairwise.imp_of_mem (R := fun _ _ => True)
    · intro a b ha hb _
      simp [hp a b (List.mem_filter.1 ha).2 (List.mem_filter.1 hb).2]
    · exact List.pairwise_of_forall (fun _ _ => trivial)
  have hkept := (sublist_stableSort cmp hties List.filter_sublist).filter p
  simp only [List.filter_filter, Bool.and_self] at hkept
  exact (hkept.eq_of_length ((stableSort_perm cmp l).filter p).length_eq.symm).symm

/-- An arranged list is determined by the order within each class of ties. -/
lemma eq_of_filter_tied {l m : List α} (hl : Arranged cmp l) (hm : Arranged cmp m)
    (h : ∀ a, l.filter (tied cmp a) = m.filter (tied cmp a)) : l = m := by
  induction l generalizing m with
  | nil =>
    cases m with
    | nil => rfl
    | cons b m =>
      have hb := h b
      simp [ReflCmp.compare_self] at hb
  | cons a l ih =>
    cases m with
    | nil =>
      have ha := h a
      simp [ReflCmp.compare_self] at ha
    | cons b m =>
      -- each head is an element of the other list, and minimal there, so the heads are tied
      have ha : a ∈ b :: m := by
        have hself : a ∈ (a :: l).filter (tied cmp a) := by simp [ReflCmp.compare_self]
        rw [h a] at hself
        exact (List.mem_filter.1 hself).1
      have hb : b ∈ a :: l := by
        have hself : b ∈ (b :: m).filter (tied cmp b) := by simp [ReflCmp.compare_self]
        rw [← h b] at hself
        exact (List.mem_filter.1 hself).1
      have hle : (cmp a b).isLE := by
        rcases List.mem_cons.1 hb with rfl | hb
        · simp [ReflCmp.compare_self]
        · exact List.rel_of_pairwise_cons hl hb
      have hge : (cmp b a).isLE := by
        rcases List.mem_cons.1 ha with rfl | ha
        · simp [ReflCmp.compare_self]
        · exact List.rel_of_pairwise_cons hm ha
      have hab := OrientedCmp.isLE_antisymm hle hge
      have hhead := h a
      simp [ReflCmp.compare_self, hab] at hhead
      obtain ⟨rfl, -⟩ := hhead
      have hrest : ∀ c, l.filter (tied cmp c) = m.filter (tied cmp c) := by
        intro c
        have hc := h c
        rw [List.filter_cons, List.filter_cons] at hc
        split at hc
        · exact (List.cons.inj hc).2
        · exact hc
      rw [ih (List.Pairwise.of_cons hl) (List.Pairwise.of_cons hm) hrest]

/-- The stable sort is the one arrangement that keeps the order within each class of ties. -/
lemma eq_stableSort {l m : List α} (hm : Arranged cmp m)
    (h : ∀ a, m.filter (tied cmp a) = l.filter (tied cmp a)) : m = stableSort cmp l := by
  apply eq_of_filter_tied cmp hm (arranged_stableSort cmp l)
  intro a
  rw [h a, filter_stableSort_of_tied cmp (fun _ _ => tied_of_tied cmp)]

/-- `m` is `l` in order, and within each class of ties it is `l` as it was. -/
structure IsStableSort (cmp : α → α → Ordering) (l m : List α) : Prop where
  arranged : Arranged cmp m
  ties : ∀ a, m.filter (tied cmp a) = l.filter (tied cmp a)

/-- Every list has one stable sort. -/
theorem isStableSort_iff {l m : List α} : IsStableSort cmp l m ↔ m = stableSort cmp l := by
  refine ⟨fun h => eq_stableSort cmp h.arranged h.ties, ?_⟩
  rintro rfl
  exact ⟨arranged_stableSort cmp l,
    fun _ => filter_stableSort_of_tied cmp (fun _ _ => tied_of_tied cmp) l⟩

theorem filter_stableSort (p : α → Bool) (l : List α) :
    (stableSort cmp l).filter p = stableSort cmp (l.filter p) := by
  apply eq_stableSort
  · exact (arranged_stableSort cmp l).filter p
  · intro a
    rw [filter_filter_comm, filter_stableSort_of_tied cmp (fun _ _ => tied_of_tied cmp),
      filter_filter_comm]

/-- Sorting again puts the later order first; the earlier one decides between its ties. -/
theorem stableSort_stableSort (cmp' : α → α → Ordering) [TransCmp cmp'] (l : List α) :
    stableSort cmp' (stableSort cmp l) = stableSort (compareLex cmp' cmp) l := by
  have hboth : ∀ {a b : α}, compareLex cmp' cmp a b = .eq → cmp' a b = .eq ∧ cmp a b = .eq := by
    intro a b h
    simpa [compareLex] using h
  apply eq_stableSort
  · rw [Arranged, List.pairwise_iff_forall_sublist]
    intro a b hab
    have hle := List.pairwise_iff_forall_sublist.1 (arranged_stableSort cmp' _) hab
    cases h : cmp' a b with
    | lt => simp [compareLex, h]
    | gt => simp [h] at hle
    | eq =>
      -- ties of the later order stand as the earlier sort left them
      have hclass := hab.filter (tied cmp' a)
      rw [filter_stableSort_of_tied cmp' (fun _ _ => tied_of_tied cmp')] at hclass
      simp [h, ReflCmp.compare_self] at hclass
      have hearlier := List.pairwise_iff_forall_sublist.1 (arranged_stableSort cmp l)
        (hclass.trans List.filter_sublist)
      simp [compareLex, h, hearlier]
  · intro a
    have hties : ∀ b c, tied (compareLex cmp' cmp) a b = true →
        tied (compareLex cmp' cmp) a c = true → cmp' b c = .eq ∧ cmp b c = .eq :=
      fun b c hb hc => hboth (tied_of_tied (compareLex cmp' cmp) hb hc)
    rw [filter_stableSort_of_tied cmp' (fun b c hb hc => (hties b c hb hc).1),
      filter_stableSort_of_tied cmp (fun b c hb hc => (hties b c hb hc).2)]

/-- A list of ties stays as it is. -/
lemma stableSort_of_tied (h : ∀ a b, cmp a b = .eq) (l : List α) : stableSort cmp l = l := by
  have hall := filter_stableSort_of_tied cmp (p := fun _ => true) (fun a b _ _ => h a b) l
  rwa [List.filter_eq_self.2 (fun _ _ => rfl), List.filter_eq_self.2 (fun _ _ => rfl)] at hall

end Sorting

section Firsts

variable {κ α : Type} [BEq κ] [Hashable κ] [LawfulBEq κ] (key : α → κ)

lemma firsts_sublist (l : List α) : (firsts key l).Sublist l := by
  induction l with
  | nil => simp
  | cons a l ih =>
    rw [firsts_cons]
    exact (List.filter_sublist.trans ih).cons_cons a

/-- A filter that looks at the key alone may be applied before or after DISTINCT. -/
theorem filter_firsts {p : α → Bool} (hp : ∀ a b, key a = key b → p a = p b) (l : List α) :
    (firsts key l).filter p = firsts key (l.filter p) := by
  induction l with
  | nil => rfl
  | cons a l ih =>
    rw [firsts_cons, List.filter_cons, List.filter_cons]
    cases ha : p a with
    | true =>
      simp only [if_true]
      rw [firsts_cons, filter_filter_comm, ih]
    | false =>
      have hrest : ∀ b ∈ (firsts key l).filter p, (!(key a == key b)) = true := by
        intro b hb
        have hpb := (List.mem_filter.1 hb).2
        have hne : key a ≠ key b := by
          intro h
          rw [← hp a b h, ha] at hpb
          exact absurd hpb (by decide)
        simpa using hne
      rw [filter_filter_comm, List.filter_eq_self.2 hrest, ih]
      simp

@[simp] lemma firsts_firsts (l : List α) : firsts key (firsts key l) = firsts key l := by
  induction l with
  | nil => rfl
  | cons a l ih =>
    have hp : ∀ b c, key b = key c → (!(key a == key b)) = (!(key a == key c)) := by
      intro b c h
      rw [h]
    rw [firsts_cons, firsts_cons, ← filter_firsts key hp, ih, List.filter_filter]
    simp only [Bool.and_self]

/-- Rows of one key are tied, so sorting does not change which of them comes first. -/
theorem firsts_stableSort {cmp : α → α → Ordering} [TransCmp cmp]
    (hkey : ∀ a b, key a = key b → cmp a b = .eq) (l : List α) :
    firsts key (stableSort cmp l) = stableSort cmp (firsts key l) := by
  apply eq_stableSort
  · exact (arranged_stableSort cmp l).sublist (firsts_sublist key _)
  · intro a
    have hclass : ∀ b c, key b = key c → tied cmp a b = tied cmp a c := by
      intro b c h
      unfold tied
      rw [TransCmp.congr_right (hkey b c h)]
    rw [filter_firsts key hclass, filter_firsts key hclass,
      filter_stableSort_of_tied cmp (fun _ _ => tied_of_tied cmp)]

end Firsts
end Pushdown
