/-! # Entries

A finite map is a list of entries. `Entries.insert` and `Entries.adjust` keep the keys in
increasing order, each key once, so the list itself shows the order in which a map is written.
-/

namespace Pushdown

/-- A finite map from `κ` to `β`. -/
structure Entries (κ β : Type) where
  toList : List (κ × β)
deriving DecidableEq

namespace Entries

variable {κ β : Type}

def empty : Entries κ β := ⟨[]⟩

def keys (m : Entries κ β) : List κ := m.toList.map Prod.fst

variable [Ord κ]

def findIn (k : κ) : List (κ × β) → Option β
  | [] => none
  | (k', v) :: rest => if compare k k' = .eq then some v else findIn k rest

def find? (m : Entries κ β) (k : κ) : Option β := findIn k m.toList

def contains (m : Entries κ β) (k : κ) : Bool := (m.find? k).isSome

/-- Writes the value `f none` at a new key, and `f (some v)` over the value `v` of a present one. -/
def alterIn (k : κ) (f : Option β → β) : List (κ × β) → List (κ × β)
  | [] => [(k, f none)]
  | (k', v) :: rest =>
    match compare k k' with
    | .lt => (k, f none) :: (k', v) :: rest
    | .eq => (k', f (some v)) :: rest
    | .gt => (k', v) :: alterIn k f rest

def insert (m : Entries κ β) (k : κ) (v : β) : Entries κ β := ⟨alterIn k (fun _ => v) m.toList⟩

def erase (m : Entries κ β) (k : κ) : Entries κ β :=
  ⟨m.toList.filter fun e => compare k e.1 != .eq⟩

/-- Applies `f` to the value at `k`, which counts as `default` where there is none. -/
def adjust (m : Entries κ β) (k : κ) (default : β) (f : β → β) : Entries κ β :=
  ⟨alterIn k (fun v => f (v.getD default)) m.toList⟩

def insertAll (m : Entries κ β) (es : List (κ × β)) : Entries κ β :=
  es.foldl (fun m e => m.insert e.1 e.2) m

theorem findIn_alterIn_self [Std.LawfulEqOrd κ] (k : κ) (v : β) (es : List (κ × β)) :
    findIn k (alterIn k (fun _ => v) es) = some v := by
  induction es with
  | nil => simp [alterIn, findIn]
  | cons e es ih =>
    obtain ⟨k', v'⟩ := e
    cases h : compare k k' with
    | lt => simp [alterIn, findIn, h]
    | eq => simp [alterIn, findIn, h]
    | gt => simp [alterIn, findIn, h, ih]

theorem findIn_alterIn_of_ne [Std.LawfulEqOrd κ] {k l : κ} (hne : l ≠ k) (f : Option β → β)
    (es : List (κ × β)) : findIn l (alterIn k f es) = findIn l es := by
  have hc : compare l k ≠ .eq := fun h => hne (Std.compare_eq_iff_eq.1 h)
  induction es with
  | nil => simp [alterIn, findIn, hc]
  | cons e es ih =>
    obtain ⟨k', v'⟩ := e
    cases h : compare k k' with
    | lt => simp [alterIn, findIn, h, hc]
    | eq =>
      obtain rfl := Std.compare_eq_iff_eq.1 h
      simp [alterIn, findIn, hc]
    | gt => simp [alterIn, findIn, h, ih]

theorem findIn_eq_none {k : κ} {es : List (κ × β)} (h : ∀ e ∈ es, compare k e.1 ≠ .eq) :
    findIn k es = none := by
  induction es with
  | nil => rfl
  | cons e es ih =>
    rw [findIn, if_neg (h e List.mem_cons_self)]
    exact ih fun e' he' => h e' (List.mem_cons_of_mem _ he')

@[simp]
theorem find?_insert_self [Std.LawfulEqOrd κ] (m : Entries κ β) (k : κ) (v : β) :
    (m.insert k v).find? k = some v :=
  findIn_alterIn_self k v m.toList

theorem find?_insert_of_ne [Std.LawfulEqOrd κ] (m : Entries κ β) {k l : κ} (hne : l ≠ k) (v : β) :
    (m.insert k v).find? l = m.find? l :=
  findIn_alterIn_of_ne hne _ m.toList

theorem find?_insert [DecidableEq κ] [Std.LawfulEqOrd κ] (m : Entries κ β) (k l : κ) (v : β) :
    (m.insert k v).find? l = if l = k then some v else m.find? l := by
  split
  · next h => rw [h, find?_insert_self]
  · next h => exact find?_insert_of_ne m h v

@[simp]
theorem find?_erase_self (m : Entries κ β) (k : κ) : (m.erase k).find? k = none :=
  findIn_eq_none fun _ he => bne_iff_ne.1 (List.mem_filter.1 he).2

theorem find?_erase_of_ne [Std.LawfulEqOrd κ] (m : Entries κ β) {k l : κ} (hne : l ≠ k) :
    (m.erase k).find? l = m.find? l := by
  obtain ⟨es⟩ := m
  simp only [erase, find?]
  induction es with
  | nil => rfl
  | cons e es ih =>
    obtain ⟨k', v⟩ := e
    rw [List.filter_cons]
    split
    · rw [findIn, findIn, ih]
    · next hk =>
      have hk' : compare k k' = .eq := by simpa using hk
      obtain rfl := Std.compare_eq_iff_eq.1 hk'
      rw [findIn, if_neg fun h => hne (Std.compare_eq_iff_eq.1 h), ih]

theorem find?_erase [DecidableEq κ] [Std.LawfulEqOrd κ] (m : Entries κ β) (k l : κ) :
    (m.erase k).find? l = if l = k then none else m.find? l := by
  split
  · next h => rw [h, find?_erase_self]
  · next h => exact find?_erase_of_ne m h

/-- The keys are in increasing order, each key once. -/
def Ordered (m : Entries κ β) : Prop :=
  m.toList.Pairwise fun e e' => compare e.1 e'.1 = .lt

theorem ordered_empty : (empty : Entries κ β).Ordered := .nil

theorem key_of_mem_alterIn {k : κ} {f : Option β → β} {es : List (κ × β)} {e : κ × β}
    (h : e ∈ alterIn k f es) : e.1 = k ∨ ∃ e' ∈ es, e.1 = e'.1 := by
  induction es with
  | nil =>
    obtain rfl := List.mem_singleton.1 h
    exact Or.inl rfl
  | cons e' es ih =>
    obtain ⟨k', v⟩ := e'
    cases hk : compare k k' with
    | lt =>
      simp only [alterIn, hk, List.mem_cons] at h
      rcases h with rfl | h
      · exact Or.inl rfl
      · exact Or.inr ⟨e, List.mem_cons.2 h, rfl⟩
    | eq =>
      simp only [alterIn, hk, List.mem_cons] at h
      rcases h with rfl | h
      · exact Or.inr ⟨(k', v), List.mem_cons_self, rfl⟩
      · exact Or.inr ⟨e, List.mem_cons_of_mem _ h, rfl⟩
    | gt =>
      simp only [alterIn, hk, List.mem_cons] at h
      rcases h with rfl | h
      · exact Or.inr ⟨(k', v), List.mem_cons_self, rfl⟩
      · exact (ih h).imp_right fun ⟨e', he', hkey⟩ => ⟨e', List.mem_cons_of_mem _ he', hkey⟩

theorem Ordered.adjust [Std.TransOrd κ] {m : Entries κ β} (h : m.Ordered) (k : κ) (default : β)
    (f : β → β) : (m.adjust k default f).Ordered := by
  obtain ⟨es⟩ := m
  simp only [Ordered, Entries.adjust] at h ⊢
  induction es with
  | nil => exact List.pairwise_singleton _ _
  | cons e es ih =>
    obtain ⟨k', v⟩ := e
    obtain ⟨hhead, htail⟩ := List.pairwise_cons.1 h
    cases hk : compare k k' with
    | lt =>
      simp only [alterIn, hk]
      refine List.pairwise_cons.2 ⟨List.forall_mem_cons.2 ⟨hk, fun e he => ?_⟩, h⟩
      exact Std.TransCmp.lt_trans hk (hhead e he)
    | eq =>
      simp only [alterIn, hk]
      exact List.pairwise_cons.2 ⟨hhead, htail⟩
    | gt =>
      simp only [alterIn, hk]
      refine List.pairwise_cons.2 ⟨fun e he => ?_, ih htail⟩
      rcases key_of_mem_alterIn he with hkey | ⟨e', he', hkey⟩
      · rw [hkey]
        exact Std.OrientedCmp.gt_iff_lt.1 hk
      · rw [hkey]
        exact hhead e' he'

theorem Ordered.insert [Std.TransOrd κ] {m : Entries κ β} (h : m.Ordered) (k : κ) (v : β) :
    (m.insert k v).Ordered :=
  h.adjust k v fun _ => v

theorem Ordered.erase {m : Entries κ β} (h : m.Ordered) (k : κ) : (m.erase k).Ordered :=
  h.filter _

/-- Where the keys are in order, an entry is found just if it is there. -/
theorem Ordered.mem_toList_iff [Std.TransOrd κ] [Std.LawfulEqOrd κ] {m : Entries κ β}
    (h : m.Ordered) (e : κ × β) : e ∈ m.toList ↔ m.find? e.1 = some e.2 := by
  obtain ⟨es⟩ := m
  simp only [Ordered, find?] at h ⊢
  induction es with
  | nil => exact iff_of_false List.not_mem_nil nofun
  | cons e' es ih =>
    obtain ⟨hhead, htail⟩ := List.pairwise_cons.1 h
    rw [List.mem_cons, ih htail, findIn]
    split
    · next heq =>
      have hkey : e.1 = e'.1 := Std.compare_eq_iff_eq.1 heq
      have hnone : findIn e.1 es = none := findIn_eq_none fun e'' he'' => by
        rw [hkey, hhead e'' he'']
        decide
      rw [hnone, Prod.ext_iff, Option.some.injEq]
      simp [hkey, eq_comm]
    · next hne =>
      have hkey : e ≠ e' := fun heq => hne (by rw [heq]; exact Std.compare_self)
      simp [hkey]

/-- Where the keys are in order, a key that has no entry yet is not found behind its place. -/
theorem find?_adjust_self [Std.TransOrd κ] {m : Entries κ β} (h : m.Ordered) (k : κ) (default : β)
    (f : β → β) : (m.adjust k default f).find? k = some (f ((m.find? k).getD default)) := by
  obtain ⟨es⟩ := m
  simp only [Ordered, Entries.adjust, find?] at h ⊢
  induction es with
  | nil => simp [alterIn, findIn]
  | cons e es ih =>
    obtain ⟨k', v⟩ := e
    obtain ⟨hhead, htail⟩ := List.pairwise_cons.1 h
    cases hk : compare k k' with
    | lt =>
      have hnone : findIn k es = none := findIn_eq_none fun e he => by
        rw [Std.TransCmp.lt_trans hk (hhead e he)]
        decide
      simp [alterIn, findIn, hk, hnone]
    | eq => simp [alterIn, findIn, hk]
    | gt => simpa [alterIn, findIn, hk] using ih htail

theorem find?_adjust_of_ne [Std.LawfulEqOrd κ] (m : Entries κ β) {k l : κ} (hne : l ≠ k)
    (default : β) (f : β → β) : (m.adjust k default f).find? l = m.find? l :=
  findIn_alterIn_of_ne hne _ m.toList

end Entries
end Pushdown
