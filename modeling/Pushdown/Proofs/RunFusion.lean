import Mathlib.Data.List.SplitBy
import Pushdown.Pipeline.Sweep
import Pushdown.Proofs.Squashing

/-!
# Fusion of runs

A fusion turns each maximal run of parts into one operation and leaves all else as it is. The scan
from the back comes to that, and so does the sweep, which removes and inserts operations in the
pipeline that it goes over.
-/

namespace Pushdown

namespace Fusion

open Operation

variable {ρ ν : Type} (f : Fusion ρ ν)

/-- Does the operation take part in the fusion? -/
def isPart (op : Operation ρ) : Bool := (f.part? op).isSome

/-- What stands for a run: one operation for the values of all its parts, or none if they come to
something neutral. An operation that is no part stands for itself. -/
def fuseRun (run : List (Operation ρ)) : List (Operation ρ) :=
  match run.mapM f.part? with
  | some values =>
    let fused := values.foldr f.combine f.neutral
    if f.isNeutral fused then [] else [f.build fused]
  | none => run

/-- Fuses each maximal run of parts on its own. -/
def fuseRuns (ops : List (Operation ρ)) : List (Operation ρ) :=
  (ops.splitBy fun a b => f.isPart a && f.isPart b).flatMap f.fuseRun

variable {f}

lemma squash_def (ops : List (Operation ρ)) :
    f.squash ops = f.flush (f.scan ops).1 (f.scan ops).2 := rfl

lemma flush_eq_append (v : ν) (ops : List (Operation ρ)) : f.flush v ops = f.flush v [] ++ ops := by
  unfold flush
  split
  · rfl
  · rfl

lemma squash_nil (hneutral : f.isNeutral f.neutral = true) : f.squash [] = [] :=
  flush_of_neutral hneutral []

lemma part?_eq_none {op : Operation ρ} (h : f.isPart op = false) : f.part? op = none := by
  rwa [isPart, Option.isSome_eq_false_iff, Option.isNone_iff_eq_none] at h

/-- Nothing is pending in front of an operation that is no part. -/
lemma scan_of_not_isPart {op : Operation ρ} (h : f.isPart op = false) (ops : List (Operation ρ)) :
    f.scan (op :: ops) = (f.neutral, op :: f.squash ops) := by
  rw [scan, part?_eq_none h]
  rfl

/-- The scan folds the values of parts into what is pending behind them. -/
lemma scan_append_of_mapM {run : List (Operation ρ)} {values : List ν}
    (h : run.mapM f.part? = some values) (rest : List (Operation ρ)) :
    f.scan (run ++ rest) = (values.foldr f.combine (f.scan rest).1, (f.scan rest).2) := by
  induction run generalizing values with
  | nil =>
    obtain rfl : [] = values := Option.some.inj h
    rfl
  | cons op run ih =>
    rw [List.mapM_cons] at h
    obtain ⟨v, hv, h⟩ := Option.bind_eq_some_iff.1 h
    obtain ⟨later, hlater, h⟩ := Option.bind_eq_some_iff.1 h
    obtain rfl : v :: later = values := Option.some.inj h
    rw [List.cons_append, scan, ih hlater, hv]
    rfl

lemma exists_mapM_part? {run : List (Operation ρ)} (h : ∀ op ∈ run, f.isPart op = true) :
    ∃ values, run.mapM f.part? = some values := by
  induction run with
  | nil => exact ⟨[], rfl⟩
  | cons op run ih =>
    obtain ⟨hop, hrun⟩ := List.forall_mem_cons.1 h
    obtain ⟨v, hv⟩ := Option.isSome_iff_exists.1 hop
    obtain ⟨values, hvalues⟩ := ih hrun
    refine ⟨v :: values, ?_⟩
    rw [List.mapM_cons, hv, hvalues]
    rfl

/-- A list in which neighbours are always parts is a run, or a single operation that is no part. -/
lemma forall_isPart_or_singleton {run : List (Operation ρ)} (hrun : run ≠ [])
    (h : run.IsChain fun a b => (f.isPart a && f.isPart b) = true) :
    (∀ op ∈ run, f.isPart op = true) ∨ ∃ op, run = [op] ∧ f.isPart op = false := by
  induction run with
  | nil => exact absurd rfl hrun
  | cons op run ih =>
    cases run with
    | nil =>
      cases hop : f.isPart op with
      | true => exact Or.inl (List.forall_mem_singleton.2 hop)
      | false => exact Or.inr ⟨op, rfl, hop⟩
    | cons next run =>
      obtain ⟨hpair, hrest⟩ := List.isChain_cons_cons.1 h
      obtain ⟨hop, hnext⟩ := Bool.and_eq_true_iff.1 hpair
      rcases ih (List.cons_ne_nil next run) hrest with hparts | ⟨op', hsingle, hno⟩
      · exact Or.inl (List.forall_mem_cons.2 ⟨hop, hparts⟩)
      · obtain ⟨rfl, -⟩ := List.cons.inj hsingle
        rw [hnext] at hno
        cases hno

/-- A run is fused on its own if no part stands behind it. -/
lemma squash_append_of_forall_isPart (hneutral : f.isNeutral f.neutral = true)
    {run rest : List (Operation ρ)} (hrun : ∀ op ∈ run, f.isPart op = true)
    (hrest : ∀ op ∈ rest.head?, f.isPart op = false) :
    f.squash (run ++ rest) = f.fuseRun run ++ f.squash rest := by
  obtain ⟨values, hvalues⟩ := exists_mapM_part? hrun
  have hpending : (f.scan rest).1 = f.neutral := by
    cases rest with
    | nil => rfl
    | cons op rest => rw [scan_of_not_isPart (hrest op rfl)]
  have hdone : f.squash rest = (f.scan rest).2 := by
    rw [squash_def, hpending, flush_of_neutral hneutral]
  rw [squash_def, scan_append_of_mapM hvalues, hpending, hdone, fuseRun, hvalues]
  exact flush_eq_append _ _

/-- Squashing fuses runs that follow one another one by one. -/
lemma squash_flatten (hneutral : f.isNeutral f.neutral = true)
    {runs : List (List (Operation ρ))} (hne : [] ∉ runs)
    (hchain : ∀ run ∈ runs, run.IsChain fun a b => (f.isPart a && f.isPart b) = true)
    (happart : runs.IsChain fun run next =>
      ∃ hrun hnext, (f.isPart (run.getLast hrun) && f.isPart (next.head hnext)) = false) :
    f.squash runs.flatten = runs.flatMap f.fuseRun := by
  induction runs with
  | nil => exact squash_nil hneutral
  | cons run runs ih =>
    obtain ⟨hrun, hruns⟩ := not_or.1 (List.mem_cons.not.1 hne)
    obtain ⟨hthis, hlater⟩ := List.forall_mem_cons.1 hchain
    obtain ⟨hnext, happart⟩ := List.isChain_cons.1 happart
    rw [List.flatten_cons, List.flatMap_cons, ← ih hruns hlater happart]
    rcases forall_isPart_or_singleton (Ne.symm hrun) hthis with hparts | ⟨op, rfl, hop⟩
    · refine squash_append_of_forall_isPart hneutral hparts ?_
      cases runs with
      | nil => exact nofun
      | cons next runs =>
        -- the last operation of the run is a part, so the first of the next one is none
        obtain ⟨hlast, hhead, hends⟩ := hnext next rfl
        rw [hparts _ (List.getLast_mem hlast), Bool.true_and] at hends
        intro op hop
        rw [List.flatten_cons, List.head?_append, List.head?_eq_some_head hhead] at hop
        obtain rfl := Option.some.inj hop
        exact hends
    · have hself : f.fuseRun [op] = [op] := by
        rw [fuseRun, List.mapM_cons, part?_eq_none hop]
        rfl
      rw [hself, List.singleton_append, squash_def, scan_of_not_isPart hop]
      exact flush_of_neutral hneutral _

lemma squash_eq_fuseRuns (hneutral : f.isNeutral f.neutral = true) (ops : List (Operation ρ)) :
    f.squash ops = f.fuseRuns ops := by
  let together := fun a b => f.isPart a && f.isPart b
  have hruns : f.squash (ops.splitBy together).flatten = (ops.splitBy together).flatMap f.fuseRun :=
    squash_flatten hneutral (List.nil_notMem_splitBy together ops)
      (fun run hrun => List.isChain_of_mem_splitBy hrun)
      (List.isChain_getLast_head_splitBy together ops)
  rwa [List.flatten_splitBy] at hruns

section Sweeps

variable {p : Pipeline ρ}

lemma insertPending_eq (pending : ν) (before done : List (Operation ρ)) :
    f.insertPending pending before.length { p with operations := before ++ done } =
      some { p with operations := before ++ f.flush pending done } := by
  unfold insertPending flush
  split
  · rfl
  · rw [Pipeline.insert?, if_pos (by simp)]
    simp

/-- A visit does to the pipeline what the scan does with one more operation. -/
lemma visit_eq (before after : List (Operation ρ)) (op : Operation ρ) :
    f.visit (f.scan after).1 before.length
        { p with operations := before ++ op :: (f.scan after).2 } =
      some ((f.scan (op :: after)).1,
        { p with operations := before ++ (f.scan (op :: after)).2 }) := by
  have hat : (before ++ op :: (f.scan after).2)[before.length]? = some op := by simp
  rw [visit, hat, Option.bind_some, scan]
  cases hv : f.part? op with
  | some v => simp [Pipeline.remove?, List.eraseIdx_append_of_length_le]
  | none =>
    have hinsert := insertPending_eq (f := f) (p := p) (f.scan after).1 (before ++ [op])
      (f.scan after).2
    simp only [List.length_append, List.length_singleton, List.append_assoc,
      List.singleton_append] at hinsert
    simp [hinsert]

/-- At each bound, the sweep has done in the pipeline what the scan makes of the operations from
there on. -/
lemma sweepBelow_eq (before after : List (Operation ρ)) :
    f.sweepBelow (f.scan after).1 before.length
        { p with operations := before ++ (f.scan after).2 } =
      some { p with operations := f.squash (before ++ after) } := by
  induction before using List.reverseRecOn generalizing after with
  | nil => exact insertPending_eq (f.scan after).1 [] (f.scan after).2
  | append_singleton before op ih =>
    rw [List.length_append, List.length_singleton, sweepBelow, List.append_assoc,
      List.append_assoc, List.singleton_append, List.singleton_append, visit_eq]
    exact ih (op :: after)

lemma sweep?_eq (p : Pipeline ρ) :
    f.sweep? p = some { p with operations := f.squash p.operations } := by
  have hsweep := sweepBelow_eq (f := f) (p := p) p.operations []
  rwa [scan, List.append_nil] at hsweep

end Sweeps

/-- A pass of a fusion fuses each maximal run of parts where it stands and keeps all else, be it
done by the scan or in place. No position is out of range on the way. -/
theorem pass_fuses_runs (hneutral : f.isNeutral f.neutral = true) (p : Pipeline ρ) :
    f.sweep? p = some { p with operations := f.fuseRuns p.operations } ∧
      f.squash p.operations = f.fuseRuns p.operations := by
  have hruns := squash_eq_fuseRuns hneutral p.operations
  refine ⟨?_, hruns⟩
  rw [sweep?_eq, hruns]

theorem pass_fuses_runs_records :
    let E := Entity.ofColumns "User" "id" ["id", "name"]
    let byName : Comparator Record := .column "name" .ascending
    let byId : Comparator Record := .column "id" .descending
    let ops := [sortedBy E byName, sortedBy E byId, sorted E, sortedBy E byId, limit 3,
      sortedBy E .natural, sortedBy E byName, sortedBy E byId]
    let p := Pipeline.ofOperations E ops
    let f := Fusion.sorts E
    f.isNeutral f.neutral = true ∧
      f.sweep? p = some { p with operations := f.fuseRuns ops } ∧
      f.squash ops = f.fuseRuns ops ∧
      f.fuseRuns ops = [sortedBy E (.chain [byId, byName]), sorted E, sortedBy E byId, limit 3,
        sortedBy E (.chain [byId, byName, .natural])] := by
  intro E byName byId ops p f
  have hneutral : f.isNeutral f.neutral = true := rfl
  obtain ⟨hsweep, hsquash⟩ := pass_fuses_runs hneutral p
  exact ⟨hneutral, hsweep, hsquash, rfl⟩

/-- A run that comes to nothing leaves no trace. -/
example :
    let ops : List (Operation Record) := [.skip 0, .skip 0, .limit 3, .skip 1, .skip 0, .skip 2]
    skips.fuseRuns ops = [.limit 3, .skip 3] := rfl

end Fusion
end Pushdown
