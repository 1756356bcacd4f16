import Pushdown.Proofs.MergeSimulation

/-!
# Window arithmetic

Skips and limits in any order come to one window. Its ends are counts of 64 bits, which stop at the
greatest count where the ends of an unbounded window would go on. Only the first row can get so
far, and behind the greatest count there is no row that it could miss.
-/

namespace Pushdown

open Operation

variable {ρ : Type}

/-- A skip or a limit. -/
inductive Cut
  | skip (n : UInt64)
  | limit (n : UInt64)

namespace Cut

def operation : Cut → Operation ρ
  | skip n => .skip n
  | limit n => .limit n

/-- The rows that the cut leaves. -/
def rows : Cut → List ρ → List ρ
  | skip n, rows => rows.drop n.toNat
  | limit n, rows => rows.take n.toNat

end Cut

/-- A window of rows whose ends have no bounds. -/
structure Window where
  first : Nat
  most? : Option Nat
deriving DecidableEq

namespace Window

def ofQuery (q : Query) : Window := ⟨q.firstResult.toNat, q.maxResults?.map UInt64.toNat⟩

def cut (w : Window) : Cut → Window
  | .skip n => ⟨w.first + n.toNat, w.most?.map (· - n.toNat)⟩
  | .limit n => ⟨w.first, some (w.most?.elim n.toNat (Nat.min · n.toNat))⟩

end Window

namespace Query

/-- The query with the cut taken into its window. -/
def cut (q : Query) : Cut → Query
  | .skip n => q.skipping n
  | .limit n => q.limitedTo n

/-- The query has the unbounded window `w`, but that its first row stops at the greatest count. -/
structure Saturates (q : Query) (w : Window) : Prop where
  first : q.firstResult.toNat = min w.first (UInt64.size - 1)
  most : q.maxResults?.map UInt64.toNat = w.most?

variable {q : Query} {w : Window}

lemma saturates_ofQuery (q : Query) : q.Saturates (.ofQuery q) where
  first := (Nat.min_eq_left (Nat.le_sub_one_of_lt q.firstResult.toNat_lt)).symm
  most := rfl

/-- A first row that has stopped stays where it is, and no cap is ever out of range. -/
lemma Saturates.cut (h : q.Saturates w) (c : Cut) : (q.cut c).Saturates (w.cut c) := by
  obtain ⟨hfirst, hmost⟩ := h
  cases c with
  | skip n =>
    have hmoved : (Count.add q.firstResult n).toNat =
        min (w.first + n.toNat) (UInt64.size - 1) := by
      rw [Count.toNat_add, hfirst]
      omega
    rw [Query.cut, Window.cut, ← hmost, Query.skipping]
    cases hq : q.maxResults? with
    | none =>
      simp only [Query.setFirstResult, hq]
      exact ⟨hmoved, rfl⟩
    | some most =>
      simp only [Query.setFirstResult, hq]
      exact ⟨hmoved, congrArg some (Count.toNat_sub most n)⟩
  | limit n =>
    refine ⟨hfirst, ?_⟩
    rw [Query.cut, Window.cut, ← hmost, Query.limitedTo]
    cases q.maxResults? with
    | none => rfl
    | some most => exact congrArg some (Count.toNat_min most n)

lemma Saturates.foldl_cut (h : q.Saturates w) (cuts : List Cut) :
    (cuts.foldl Query.cut q).Saturates (cuts.foldl Window.cut w) := by
  induction cuts generalizing q w with
  | nil => exact h
  | cons c cuts ih => exact ih (h.cut c)

end Query

namespace Store

lemma window_cut (q : Query) (c : Cut) {rows : List ρ} (hrows : rows.length < UInt64.size) :
    window (q.cut c) rows = c.rows (window q rows) := by
  cases c with
  | skip n => exact window_skipping q n hrows
  | limit n => exact window_limitedTo q n

lemma window_foldl_cut (cuts : List Cut) (q : Query) {rows : List ρ}
    (hrows : rows.length < UInt64.size) :
    window (cuts.foldl Query.cut q) rows = cuts.foldl (fun left c => c.rows left) (window q rows) := by
  induction cuts generalizing q with
  | nil => rfl
  | cons c cuts ih => rw [List.foldl_cons, List.foldl_cons, ih, window_cut q c hrows]

end Store

lemma Operation.replay?_cuts (cuts : List Cut) (rows : List ρ) :
    replay? (cuts.map Cut.operation) (.ofRows rows) =
      some (.ofRows (cuts.foldl (fun left c => c.rows left) rows)) := by
  induction cuts generalizing rows with
  | nil => rfl
  | cons c cuts ih =>
    have hone : replay? [c.operation] (.ofRows rows) = some (.ofRows (c.rows rows)) := by
      cases c with
      | skip n => exact replay?_skip rows n
      | limit n => exact replay?_limit rows n
    rw [List.map_cons, ← List.singleton_append, replay?_append, hone, Option.bind_some,
      List.foldl_cons, ih]

namespace Registry

/-- The query pass goes through skips and limits to the end. -/
lemma absorbQuery_cuts (cuts : List Cut) (q : Query) :
    absorbQuery (cuts.map (Cut.operation (ρ := ρ))) q =
      ⟨cuts.foldl Query.cut q, cuts.length, none, [], none⟩ := by
  induction cuts generalizing q with
  | nil => rfl
  | cons c cuts ih =>
    have hverdict : Verdict.onQuery (c.operation (ρ := ρ)) q = .absorbs (q.cut c) := by
      cases c <;> rfl
    unfold absorbQuery at ih ⊢
    rw [List.map_cons, Absorption.absorb, hverdict]
    simp only [ih, List.foldl_cons, List.length_cons]

/-- The query merger absorbs any skips and limits behind any window. The window that it ends with is
the one of the arithmetic without bounds, but for a first row beyond the greatest count, and shows
the rows that the cuts leave of the first window's when they are made one by one. -/
theorem mergeQuery_cuts (E : Entity ρ) (cuts : List Cut) (q : Query) :
    let p := (standard E).mergeQuery (cuts.map Cut.operation) q
    let w := cuts.foldl Window.cut (.ofQuery q)
    p.operations = [] ∧
      p.outcome.removed = cuts.length ∧ p.outcome.replaced = 0 ∧ p.outcome.failures = [] ∧
      p.target.firstResult.toNat = min w.first (UInt64.size - 1) ∧
      p.target.maxResults?.map UInt64.toNat = w.most? ∧
      ∀ rows : List ρ, rows.length < UInt64.size →
        Store.window p.target rows =
            cuts.foldl (fun left c => c.rows left) (Store.window q rows) ∧
          replay? (cuts.map Cut.operation) (.ofRows (Store.window q rows)) =
            some (.ofRows (Store.window p.target rows)) := by
  intro p w
  obtain ⟨hleft, htarget, hremoved, hreplaced, hfailures⟩ :=
    mergeQuery_standard E (cuts.map Cut.operation) q
  rw [absorbQuery_cuts] at hleft htarget hremoved hreplaced hfailures
  have hsaturates : p.target.Saturates w := by
    rw [show p.target = cuts.foldl Query.cut q from htarget]
    exact (Query.saturates_ofQuery q).foldl_cut cuts
  refine ⟨hleft, hremoved, hreplaced, hfailures, hsaturates.first, hsaturates.most, ?_⟩
  intro rows hrows
  have hwindow := Store.window_foldl_cut cuts q hrows
  rw [show p.target = cuts.foldl Query.cut q from htarget]
  exact ⟨hwindow, by rw [replay?_cuts, hwindow]⟩

theorem mergeQuery_cuts_records :
    let E := Entity.ofColumns "User" "id" ["id", "name"]
    let row (n : Int64) : Record := ⟨[("id", .int n)]⟩
    let rows := [row 1, row 2, row 3, row 4, row 5, row 6]
    let q := ((Query.ofCriteria (.new "User")).setFirstResult 1).setMaxResults 4
    let cuts : List Cut := [.limit Count.greatest, .skip 1, .limit 2, .skip Count.greatest, .skip 7]
    let p := (standard E).mergeQuery (cuts.map Cut.operation) q
    let w := cuts.foldl Window.cut (.ofQuery q)
    rows.length < UInt64.size ∧ w = ⟨UInt64.size + 8, some 0⟩ ∧
      p.operations = [] ∧
      p.outcome.removed = cuts.length ∧ p.outcome.replaced = 0 ∧ p.outcome.failures = [] ∧
      p.target.firstResult.toNat = min w.first (UInt64.size - 1) ∧
      p.target.maxResults?.map UInt64.toNat = w.most? ∧
      Store.window p.target rows =
        cuts.foldl (fun left c => c.rows left) (Store.window q rows) ∧
      replay? (cuts.map Cut.operation) (.ofRows (Store.window q rows)) =
        some (.ofRows (Store.window p.target rows)) := by
  intro E row rows q cuts p w
  have hrows : rows.length < UInt64.size := by decide
  obtain ⟨hleft, hremoved, hreplaced, hfailures, hfirst, hmost, hwindow⟩ :=
    mergeQuery_cuts E cuts q
  obtain ⟨hshown, hreplay⟩ := hwindow rows hrows
  exact ⟨hrows, by decide, hleft, hremoved, hreplaced, hfailures, hfirst, hmost, hshown, hreplay⟩

end Registry
end Pushdown
