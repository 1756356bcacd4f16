import Mathlib.Data.List.Induction
import Mathlib.Tactic.Lemma
import Pushdown.Merge.Ledger

/-!
# Marked positions

Of all the marks that are set on a position, the last one decides what becomes of the operation
there. Absorbed positions are stripped from the last to the first, so each operation is still in its
place when its turn comes, and the outcome is as if every operation were dealt with on its own.
-/

namespace Pushdown

variable {ρ : Type}

namespace Entries

variable {β : Type}

/-- Entries in order are found one by one, from the first position to the last. -/
lemma toList_eq_filterMap_range {m : Entries Nat β} (h : m.Ordered) {n : Nat}
    (hlt : ∀ i, (m.find? i).isSome → i < n) :
    m.toList = (List.range n).filterMap fun i => (m.find? i).map fun v => (i, v) := by
  have hfound : ((List.range n).filterMap fun i => (m.find? i).map fun v => (i, v)).Pairwise
      fun e e' => compare e.1 e'.1 = .lt := by
    refine List.pairwise_lt_range.filterMap _ fun i j hij e he e' he' => ?_
    obtain ⟨v, -, rfl⟩ := Option.map_eq_some_iff.1 he
    obtain ⟨w, -, rfl⟩ := Option.map_eq_some_iff.1 he'
    exact Nat.compare_eq_lt.2 hij
  have hnodup {es : List (Nat × β)} (hes : es.Pairwise fun e e' => compare e.1 e'.1 = .lt) :
      es.Nodup :=
    hes.imp fun {e e'} hlt heq => by simp [heq] at hlt
  refine List.Perm.eq_of_pairwise (fun e e' _ _ hlt hgt => ?_) h hfound ?_
  · exact absurd hgt (Std.OrientedCmp.not_lt_of_lt hlt)
  · refine (List.perm_ext_iff_of_nodup (hnodup h) (hnodup hfound)).2 fun e => ?_
    rw [h.mem_toList_iff, List.mem_filterMap]
    refine ⟨fun he => ⟨e.1, List.mem_range.2 (hlt e.1 (by simp [he])), by simp [he]⟩, ?_⟩
    rintro ⟨i, -, he⟩
    obtain ⟨v, hv, rfl⟩ := Option.map_eq_some_iff.1 he
    exact hv

lemma keys_eq_filter_range {m : Entries Nat β} (h : m.Ordered) {n : Nat}
    (hlt : ∀ i, m.contains i → i < n) : m.keys = (List.range n).filter m.contains := by
  rw [keys, toList_eq_filterMap_range h hlt, List.map_filterMap, ← List.filterMap_eq_filter]
  congr 1
  funext i
  rw [Option.guard, contains]
  cases m.find? i <;> rfl

end Entries

namespace Mark

def isAbsorbed : Mark ρ → Bool
  | absorbed => true
  | residual _ => false

def residual? : Mark ρ → Option (Operation ρ)
  | absorbed => none
  | residual op => some op

end Mark

/-- The mark that was set last on a position. -/
def lastMark? (calls : List (Nat × Mark ρ)) (i : Nat) : Option (Mark ρ) := calls.reverse.lookup i

/-- What is left of the operation at a position. -/
def leftOf? (calls : List (Nat × Mark ρ)) (i : Nat) (op : Operation ρ) : Option (Operation ρ) :=
  match lastMark? calls i with
  | none => some op
  | some .absorbed => none
  | some (.residual residual) => some residual

lemma lastMark?_concat (calls : List (Nat × Mark ρ)) (i j : Nat) (m : Mark ρ) :
    lastMark? (calls ++ [(i, m)]) j = if j = i then some m else lastMark? calls j := by
  rw [lastMark?, List.reverse_append, List.reverse_singleton, List.singleton_append,
    List.lookup_cons]
  by_cases h : j = i
  · simp [h]
  · rw [beq_eq_false_iff_ne.2 h, if_neg h]
    rfl

lemma lt_of_lastMark? {calls : List (Nat × Mark ρ)} {n : Nat} (h : ∀ call ∈ calls, call.1 < n)
    {i : Nat} (hi : (lastMark? calls i).isSome) : i < n := by
  obtain ⟨m, hm⟩ := Option.isSome_iff_exists.1 hi
  obtain ⟨before, after, hcalls, -⟩ := List.lookup_eq_some_iff.1 hm
  have hmem : (i, m) ∈ calls := by
    rw [← List.mem_reverse, hcalls]
    simp
  exact h (i, m) hmem

namespace Tracker

/-- Sets a mark on a position. -/
def mark (t : Tracker ρ) (i : Nat) : Mark ρ → Tracker ρ
  | .absorbed => t.markForRemoval i
  | .residual op => t.replaceWith i op

def ofCalls (calls : List (Nat × Mark ρ)) : Tracker ρ :=
  calls.foldl (fun t call => t.mark call.1 call.2) .new

/-- The tracker has the last mark of each position in its books. -/
structure Records (t : Tracker ρ) (calls : List (Nat × Mark ρ)) : Prop where
  ordered : t.marks.Ordered
  last : ∀ i, t.marks.find? i = lastMark? calls i

lemma Records.mark {t : Tracker ρ} {calls : List (Nat × Mark ρ)} (h : t.Records calls) (i : Nat)
    (m : Mark ρ) : (t.mark i m).Records (calls ++ [(i, m)]) := by
  have hmarks : (t.mark i m).marks = t.marks.insert i m := by cases m <;> rfl
  refine ⟨hmarks ▸ h.ordered.insert i m, fun j => ?_⟩
  rw [hmarks, lastMark?_concat, Entries.find?_insert, h.last]

lemma records_ofCalls (calls : List (Nat × Mark ρ)) : (ofCalls calls).Records calls := by
  induction calls using List.reverseRecOn with
  | nil => exact ⟨Entries.ordered_empty, fun _ => rfl⟩
  | append_singleton calls call ih =>
    rw [ofCalls, List.foldl_append]
    exact ih.mark call.1 call.2

section Bounded

variable {calls : List (Nat × Mark ρ)} {n : Nat}

lemma Records.marks_eq {t : Tracker ρ} (h : t.Records calls) (hcalls : ∀ call ∈ calls, call.1 < n) :
    t.marks.toList = (List.range n).filterMap fun i => (lastMark? calls i).map fun m => (i, m) := by
  rw [Entries.toList_eq_filterMap_range h.ordered
    fun i hi => lt_of_lastMark? hcalls (h.last i ▸ hi)]
  simp only [h.last]

lemma Records.removals_eq {t : Tracker ρ} (h : t.Records calls)
    (hcalls : ∀ call ∈ calls, call.1 < n) :
    t.removals = (List.range n).filter fun i => (lastMark? calls i).any Mark.isAbsorbed := by
  rw [removals, h.marks_eq hcalls, List.filterMap_filterMap, ← List.filterMap_eq_filter]
  congr 1
  funext i
  rw [Option.guard]
  rcases lastMark? calls i with _ | _ | op <;> rfl

lemma Records.residuals_eq {t : Tracker ρ} (h : t.Records calls)
    (hcalls : ∀ call ∈ calls, call.1 < n) :
    t.residuals = (List.range n).filterMap fun i =>
      ((lastMark? calls i).bind Mark.residual?).map fun op => (i, op) := by
  rw [residuals, h.marks_eq hcalls, List.filterMap_filterMap]
  congr 1
  funext i
  rcases lastMark? calls i with _ | _ | op <;> rfl

end Bounded

lemma replaceEach_append (rs rs' : List (Nat × Operation ρ)) (ops : List (Operation ρ)) :
    replaceEach (rs ++ rs') ops = (replaceEach rs ops).bind (replaceEach rs') := by
  induction rs generalizing ops with
  | nil => rfl
  | cons r rs ih =>
    rw [List.cons_append, replaceEach, replaceEach]
    split
    · exact ih _
    · rfl

/-- Each residual takes the place of the operation at its position. -/
lemma replaceEach_range (residual? : Nat → Option (Operation ρ)) (front back : List (Operation ρ)) :
    replaceEach ((List.range front.length).filterMap fun i => (residual? i).map fun op => (i, op))
        (front ++ back) =
      .ok ((front.mapIdx fun i op => (residual? i).getD op) ++ back) := by
  induction front using List.reverseRecOn generalizing back with
  | nil => rfl
  | append_singleton front op ih =>
    rw [List.length_append, List.length_singleton, List.range_succ, List.filterMap_append,
      replaceEach_append, List.append_assoc, List.singleton_append, ih, List.mapIdx_concat]
    cases hr : residual? front.length with
    | none => simp [hr, Except.bind, replaceEach]
    | some residual => simp [hr, Except.bind, replaceEach]

/-- Whatever is stripped behind a position, the operations in front of it keep their places. -/
lemma eraseEach_range_filter (p : Nat → Bool) (front back : List (Operation ρ)) :
    eraseEach ((List.range front.length).filter p).reverse (front ++ back) =
      .ok ((front.mapIdx fun i op => if p i then none else some op).filterMap id ++ back) := by
  induction front using List.reverseRecOn generalizing back with
  | nil => rfl
  | append_singleton front op ih =>
    rw [List.length_append, List.length_singleton, List.range_succ, List.filter_append,
      List.reverse_append, List.mapIdx_concat, List.filterMap_append, List.append_assoc,
      List.singleton_append]
    cases hp : p front.length with
    | true =>
      have herase : (front ++ op :: back).eraseIdx front.length = front ++ back := by
        rw [List.eraseIdx_append_of_length_le (Nat.le_refl _)]
        simp
      simp [hp, eraseEach, herase, ih]
    | false => simp [hp, ih]

lemma length_eraseEach {is : List Nat} {ops left : List (Operation ρ)}
    (h : eraseEach is ops = .ok left) : is.length + left.length = ops.length := by
  induction is generalizing ops with
  | nil =>
    obtain rfl := Except.ok.inj h
    simp
  | cons i is ih =>
    rw [eraseEach] at h
    split at h
    · next hi =>
      have hrest := ih h
      rw [List.length_eraseIdx_of_lt hi] at hrest
      rw [List.length_cons]
      omega
    · cases h

/-- The tracker does to the operations what the last mark of each position says. -/
lemma Records.applyTo {t : Tracker ρ} {calls : List (Nat × Mark ρ)} (h : t.Records calls)
    {ops : List (Operation ρ)} (hcalls : ∀ call ∈ calls, call.1 < ops.length) :
    replaceEach t.residuals ops =
        .ok (ops.mapIdx fun i op => ((lastMark? calls i).bind Mark.residual?).getD op) ∧
      t.applyTo ops = .ok ((ops.mapIdx (leftOf? calls)).filterMap id) := by
  have hreplaced := replaceEach_range (fun i => (lastMark? calls i).bind Mark.residual?) ops []
  have herased := eraseEach_range_filter (fun i => (lastMark? calls i).any Mark.isAbsorbed)
    (ops.mapIdx fun i op => ((lastMark? calls i).bind Mark.residual?).getD op) []
  have hleft : (fun i => (fun op => if (lastMark? calls i).any Mark.isAbsorbed then none
      else some op) ∘ fun op => ((lastMark? calls i).bind Mark.residual?).getD op) =
      leftOf? calls := by
    funext i op
    rw [leftOf?, Function.comp_apply]
    rcases lastMark? calls i with _ | _ | op <;> rfl
  rw [List.append_nil, List.append_nil, ← h.residuals_eq hcalls] at hreplaced
  rw [List.append_nil, List.append_nil, List.length_mapIdx, ← h.removals_eq hcalls,
    List.mapIdx_mapIdx, hleft] at herased
  refine ⟨hreplaced, ?_⟩
  rw [Tracker.applyTo, hreplaced]
  exact herased

end Tracker

namespace Ledger

/-- Sets a mark on a position. -/
def mark (l : Ledger ρ) (i : Nat) : Mark ρ → Ledger ρ
  | .absorbed => l.markForRemoval i
  | .residual op => l.replaceWith i op

def ofCalls (calls : List (Nat × Mark ρ)) : Ledger ρ :=
  calls.foldl (fun l call => l.mark call.1 call.2) .new

/-- The ledger has each position in the set that its last mark says, and in no other. -/
structure Records (l : Ledger ρ) (calls : List (Nat × Mark ρ)) : Prop where
  removals_ordered : l.removals.Ordered
  residuals_ordered : l.residuals.Ordered
  contains_removals : ∀ i, l.removals.contains i = (lastMark? calls i).any Mark.isAbsorbed
  find?_residuals : ∀ i, l.residuals.find? i = (lastMark? calls i).bind Mark.residual?

lemma contains_removals_mark (l : Ledger ρ) (i j : Nat) (m : Mark ρ) :
    (l.mark i m).removals.contains j = if j = i then m.isAbsorbed else l.removals.contains j := by
  cases m with
  | absorbed =>
    rw [mark, markForRemoval, Entries.contains, Entries.find?_insert]
    split <;> rfl
  | residual op =>
    rw [mark, replaceWith, Entries.contains, Entries.find?_erase]
    split <;> rfl

lemma find?_residuals_mark (l : Ledger ρ) (i j : Nat) (m : Mark ρ) :
    (l.mark i m).residuals.find? j = if j = i then m.residual? else l.residuals.find? j := by
  cases m with
  | absorbed => exact Entries.find?_erase l.residuals i j
  | residual op => exact Entries.find?_insert l.residuals i j op

lemma Records.mark {l : Ledger ρ} {calls : List (Nat × Mark ρ)} (h : l.Records calls) (i : Nat)
    (m : Mark ρ) : (l.mark i m).Records (calls ++ [(i, m)]) where
  removals_ordered := by
    cases m with
    | absorbed => exact h.removals_ordered.insert i ()
    | residual op => exact h.removals_ordered.erase i
  residuals_ordered := by
    cases m with
    | absorbed => exact h.residuals_ordered.erase i
    | residual op => exact h.residuals_ordered.insert i op
  contains_removals j := by
    rw [contains_removals_mark, lastMark?_concat, h.contains_removals]
    split <;> rfl
  find?_residuals j := by
    rw [find?_residuals_mark, lastMark?_concat, h.find?_residuals]
    split <;> rfl

lemma records_ofCalls (calls : List (Nat × Mark ρ)) : (ofCalls calls).Records calls := by
  induction calls using List.reverseRecOn with
  | nil => exact ⟨Entries.ordered_empty, Entries.ordered_empty, fun _ => rfl, fun _ => rfl⟩
  | append_singleton calls call ih =>
    rw [ofCalls, List.foldl_append]
    exact ih.mark call.1 call.2

lemma Records.disjoint {l : Ledger ρ} {calls : List (Nat × Mark ρ)} (h : l.Records calls)
    (i : Nat) : (l.removals.contains i && l.residuals.contains i) = false := by
  rw [h.contains_removals, Entries.contains, h.find?_residuals]
  rcases lastMark? calls i with _ | _ | op <;> rfl

section Bounded

variable {calls : List (Nat × Mark ρ)} {n : Nat}

/-- A ledger and a tracker of the same calls mark the same positions. -/
lemma Records.eq_tracker {l : Ledger ρ} {t : Tracker ρ} (hl : l.Records calls)
    (ht : t.Records calls) (hcalls : ∀ call ∈ calls, call.1 < n) :
    l.removals.keys = t.removals ∧ l.residuals.toList = t.residuals := by
  have hremovals : ∀ i, l.removals.contains i → i < n := fun i hi => by
    rw [hl.contains_removals] at hi
    exact lt_of_lastMark? hcalls (Option.isSome_of_any hi)
  have hresiduals : ∀ i, (l.residuals.find? i).isSome → i < n := fun i hi => by
    rw [hl.find?_residuals] at hi
    exact lt_of_lastMark? hcalls (Option.isSome_of_isSome_bind hi)
  rw [ht.removals_eq hcalls, ht.residuals_eq hcalls, ← funext hl.contains_removals]
  refine ⟨Entries.keys_eq_filter_range hl.removals_ordered hremovals, ?_⟩
  rw [Entries.toList_eq_filterMap_range hl.residuals_ordered hresiduals]
  simp only [hl.find?_residuals]

end Bounded

lemma replaceEach?_eq {rs : List (Nat × Operation ρ)} {p : Pipeline ρ} {ops : List (Operation ρ)}
    (h : Tracker.replaceEach rs p.operations = .ok ops) :
    replaceEach? rs p = some { p with operations := ops } := by
  induction rs generalizing p with
  | nil =>
    obtain rfl := Except.ok.inj h
    rfl
  | cons r rs ih =>
    rw [Tracker.replaceEach] at h
    split at h
    · next hlt =>
      have hrest := ih (p := { p with operations := p.operations.set r.1 r.2 }) h
      simp [replaceEach?, Pipeline.replace?, hlt, hrest]
    · cases h

lemma removeEach?_eq {is : List Nat} {p : Pipeline ρ} {ops : List (Operation ρ)}
    (h : Tracker.eraseEach is p.operations = .ok ops) :
    removeEach? is p = some { p with operations := ops } := by
  induction is generalizing p with
  | nil =>
    obtain rfl := Except.ok.inj h
    rfl
  | cons i is ih =>
    rw [Tracker.eraseEach] at h
    split at h
    · next hlt =>
      have hrest := ih (p := { p with operations := p.operations.eraseIdx i }) h
      simp [removeEach?, Pipeline.remove?, hlt, hrest]
    · cases h

/-- A ledger and a tracker of the same calls come to the same operations. -/
lemma Records.applyTo? {l : Ledger ρ} {calls : List (Nat × Mark ρ)} (h : l.Records calls)
    {p : Pipeline ρ} (hcalls : ∀ call ∈ calls, call.1 < p.operations.length) :
    l.applyTo? p =
      some { p with operations := (p.operations.mapIdx (leftOf? calls)).filterMap id } := by
  have ht := Tracker.records_ofCalls calls
  obtain ⟨hreplaced, happlied⟩ := ht.applyTo hcalls
  obtain ⟨hremovals, hresiduals⟩ := h.eq_tracker ht hcalls
  rw [Tracker.applyTo, hreplaced] at happlied
  rw [Ledger.applyTo?, hresiduals, hremovals, replaceEach?_eq hreplaced, Option.bind_some]
  exact removeEach?_eq happlied

end Ledger

namespace Tracker

/-- After any calls on positions that exist, no position is to be both stripped and replaced, and
applying the books deals with each position on its own by the last mark that was set on it. That
never reaches for a position that does not exist, and the outcome counts what was done. -/
theorem last_marks_decide (p : Pipeline ρ) {calls : List (Nat × Mark ρ)}
    (hcalls : ∀ call ∈ calls, call.1 < p.operations.length) :
    let t := ofCalls calls
    let l := Ledger.ofCalls calls
    let left := (p.operations.mapIdx (leftOf? calls)).filterMap id
    (∀ i, (l.removals.contains i && l.residuals.contains i) = false) ∧
    l.removals.keys = t.removals ∧ l.residuals.toList = t.residuals ∧
    t.applyTo p.operations = .ok left ∧ l.applyTo? p = some { p with operations := left } ∧
    t.outcome.removed = (List.range p.operations.length).countP
      (fun i => (lastMark? calls i).any Mark.isAbsorbed) ∧
    t.outcome.replaced = (List.range p.operations.length).countP
      (fun i => ((lastMark? calls i).bind Mark.residual?).isSome) ∧
    t.outcome.removed + left.length = p.operations.length := by
  intro t l left
  have ht : t.Records calls := records_ofCalls calls
  have hl : l.Records calls := Ledger.records_ofCalls calls
  obtain ⟨hreplaced, happlied⟩ := ht.applyTo hcalls
  obtain ⟨hremovals, hresiduals⟩ := hl.eq_tracker ht hcalls
  refine ⟨hl.disjoint, hremovals, hresiduals, happlied, hl.applyTo? hcalls, ?_, ?_, ?_⟩
  · rw [outcome, ht.removals_eq hcalls, List.countP_eq_length_filter]
  · rw [outcome, ht.residuals_eq hcalls, List.length_filterMap_eq_countP]
    simp only [Option.isSome_map]
  · rw [applyTo, hreplaced] at happlied
    have hlength := length_eraseEach happlied
    rwa [List.length_reverse, List.length_mapIdx] at hlength

theorem last_marks_decide_records :
    let E := Entity.ofColumns "User" "id" ["id", "name"]
    let p := Pipeline.ofOperations E [.skip 1, .skip 2, .distinct E, .skip 3, .limit 5]
    let calls : List (Nat × Mark Record) := [(3, .residual (.limit 9)), (0, .residual (.limit 7)),
      (2, .absorbed), (3, .absorbed), (0, .absorbed), (2, .residual (.limit 8)), (0, .absorbed)]
    let left := (p.operations.mapIdx (leftOf? calls)).filterMap id
    (∀ call ∈ calls, call.1 < p.operations.length) ∧
    left = [.skip 2, .limit 8, .limit 5] ∧
    (ofCalls calls).applyTo p.operations = .ok left ∧
    (Ledger.ofCalls calls).applyTo? p = some { p with operations := left } := by
  intro E p calls left
  have hcalls : ∀ call ∈ calls, call.1 < p.operations.length := by
    simp only [calls, List.forall_mem_cons]
    exact ⟨by decide, by decide, by decide, by decide, by decide, by decide, by decide, nofun⟩
  obtain ⟨-, -, -, happlied, hpipeline, -⟩ := last_marks_decide p hcalls
  exact ⟨hcalls, rfl, happlied, hpipeline⟩

end Tracker
end Pushdown
