import Pushdown.Pipeline.Fusion
import Pushdown.Proofs.Replay

/-!
# Fusion of sorts

A comparator is the list of its keys, read from left to right: the first key that tells two rows
apart decides. So chains may be taken apart and put together, and they order rows as far as their
keys do. Since the rows have one stable sort in each order, two sorts in a row are one sort in which
the later comparator comes first.
-/

namespace Pushdown

open Std

namespace Comparator

variable {ρ : Type} (E : Entity ρ)

lemma compare_chain_keys (c : Comparator ρ) (a b : ρ) :
    (chain c.keys).compare E a b = c.compare E a b := by
  rw [compare, compareChain_keys]

lemma compare_andThen_assoc (c d e : Comparator ρ) (a b : ρ) :
    ((c.andThen d).andThen e).compare E a b = (c.andThen (d.andThen e)).compare E a b := by
  simp only [compare_andThen, Ordering.then_assoc]

lemma replay?_sorts {c d : Comparator ρ} (hc : c.IsOrder) (hd : d.IsOrder) (flow : Flow ρ) :
    Operation.replay? [.sortedBy E (d.andThen c)] flow =
      Operation.replay? [.sortedBy E c, .sortedBy E d] flow := by
  have hsorts := funext (sort_sort E hc hd)
  simp [Operation.replay?_cons, Operation.sortedBy, Flow.rearrange_rearrange, hsorts]

/-- A comparator whose closures are total preorders is a total preorder of rows, and its sort is the
one stable sort in that order. Chains compare key by key. Two sorts fuse into one, in which the
later comparator comes first. -/
theorem orders_rows_and_fuses :
    (∀ c : Comparator ρ, c.IsOrder →
      IsTotalPreorder (fun a b => c.compare E a b) ∧
      ∀ rows sorted, IsStableSort (fun a b => c.compare E a b) rows sorted ↔
        sorted = c.sort E rows) ∧
    (∀ (c : Comparator ρ) (a b : ρ), (chain c.keys).compare E a b = c.compare E a b) ∧
    (∀ (c d : Comparator ρ) (a b : ρ),
      (c.andThen d).compare E a b = (c.compare E a b).then (d.compare E a b)) ∧
    (∀ (c d e : Comparator ρ) (a b : ρ),
      ((c.andThen d).andThen e).compare E a b = (c.andThen (d.andThen e)).compare E a b) ∧
    ∀ c d : Comparator ρ, c.IsOrder → d.IsOrder →
      (∀ rows, d.sort E (c.sort E rows) = (d.andThen c).sort E rows) ∧
      (Fusion.sorts E).squash [.sortedBy E c, .sortedBy E d] = [.sortedBy E (d.andThen c)] ∧
      ∀ flow, Operation.replay? [.sortedBy E (d.andThen c)] flow =
        Operation.replay? [.sortedBy E c, .sortedBy E d] flow := by
  refine ⟨fun c hc => ?_, compare_chain_keys E, compare_andThen E, compare_andThen_assoc E,
    fun c d hc hd => ⟨sort_sort E hc hd, rfl, replay?_sorts E hc hd⟩⟩
  have := hc.transCmp E
  exact ⟨isTotalPreorder _, fun _ _ => isStableSort_iff _⟩

theorem orders_rows_and_fuses_records :
    let E := Entity.ofColumns "Person" "id" ["id", "city"]
    let wider (a b : Record) := Ord.compare a.cells.length b.cells.length
    let c : Comparator Record := .chain [.closure ⟨0, wider⟩, .chain [], .natural]
    let d : Comparator Record := .column "city" .descending
    c.IsOrder ∧ d.IsOrder ∧ IsTotalPreorder (fun a b => (d.andThen c).compare E a b) ∧
      ∀ rows, IsStableSort (fun a b => (d.andThen c).compare E a b) rows
        (d.sort E (c.sort E rows)) := by
  intro E wider c d
  have hwider : TransCmp wider :=
    inferInstanceAs (TransCmp (compareOn fun r : Record => r.cells.length))
  have hc : c.IsOrder := ⟨hwider, trivial, trivial, trivial⟩
  have hd : d.IsOrder := trivial
  obtain ⟨hpreorder, -, -, -, hfuses⟩ := orders_rows_and_fuses E
  obtain ⟨htotal, hstable⟩ := hpreorder (d.andThen c) (hd.andThen hc)
  exact ⟨hc, hd, htotal, fun rows => (hstable rows _).2 ((hfuses c d hc hd).1 rows)⟩

end Comparator
end Pushdown
