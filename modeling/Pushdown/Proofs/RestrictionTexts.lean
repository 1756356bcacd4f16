import Pushdown.Proofs.ExactLowering
import Pushdown.Proofs.LikePatterns
import Pushdown.Proofs.PrintedComparisons

/-!
# Texts of restrictions

The text of a restriction and the values of its parameters say which rows it selects, with one
exception: a conjunction and a disjunction without members have the same text, and opposite
meanings. To see this, two texts are read side by side from the front. Where they agree, what is
read means the same on both sides, and so the rests agree as well. The owner of the columns stands
in front of every dot, so it may be struck out first.
-/

namespace Pushdown

/-- The characters of a text, last one first, without the owner in front of each dot; `skipped` more
of them are to be left out. -/
def withoutOwners (length : Nat) : Nat → List Char → List Char
  | _, [] => []
  | skipped + 1, _ :: cs => withoutOwners length skipped cs
  | 0, c :: cs => c :: withoutOwners length (if c = '.' then length else 0) cs

/-- Struck out of `s`, the owner leaves `t`, whatever stands in front of them. -/
def Disowns (owner s t : String) : Prop :=
  ∀ before, withoutOwners owner.toList.length 0 (s.toList.reverse ++ before) =
    t.toList.reverse ++ withoutOwners owner.toList.length 0 before

namespace Disowns

variable {owner s t s' t' : String}

lemma append (h : Disowns owner s t) (h' : Disowns owner s' t') :
    Disowns owner (s ++ s') (t ++ t') := by
  intro before
  rw [String.toList_append, String.toList_append, List.reverse_append, List.reverse_append,
    List.append_assoc, List.append_assoc, h', h]

/-- A text without a dot has no owner. -/
lemma of_notMem (h : '.' ∉ s.toList) : Disowns owner s s := by
  intro before
  generalize hcs : s.toList.reverse = cs
  replace h : '.' ∉ cs := by rwa [← hcs, List.mem_reverse]
  clear hcs
  induction cs with
  | nil => rfl
  | cons c cs ih =>
    rw [List.mem_cons, not_or] at h
    obtain ⟨hc, hcs⟩ := h
    rw [List.cons_append, withoutOwners, if_neg (Ne.symm hc), ih hcs, List.cons_append]

lemma withoutOwners_append {length : Nat} (cs before : List Char) :
    withoutOwners length cs.length (cs ++ before) = withoutOwners length 0 before := by
  induction cs with
  | nil => rfl
  | cons c cs ih => rw [List.length_cons, List.cons_append, withoutOwners, ih]

lemma dot (owner : String) : Disowns owner (owner ++ ".") "." := by
  intro before
  rw [String.toList_append, List.reverse_append, List.append_assoc]
  change withoutOwners _ 0 ('.' :: (owner.toList.reverse ++ before)) = '.' :: _
  rw [withoutOwners, if_pos rfl, ← List.length_reverse, withoutOwners_append]
  rfl

lemma joined (separator : String) (hseparator : '.' ∉ separator.toList) {ss ts : List String}
    (h : List.Forall₂ (Disowns owner) ss ts) :
    Disowns owner (joined separator ss) (joined separator ts) := by
  induction h with
  | nil => exact of_notMem (by simp [Pushdown.joined])
  | @cons s t ss ts hs hss ih =>
    cases hss with
    | nil => exact hs
    | cons => exact (hs.append (of_notMem hseparator)).append ih

/-- What the owner leaves is determined by the text. -/
lemma unique (h : Disowns owner s t) (h' : Disowns owner s t') : t = t' := by
  have hsame := (h []).symm.trans (h' [])
  exact String.toList_inj.1 (by simpa using hsame)

end Disowns

/-- Does the test compare with the ends of a range? -/
def ColumnTest.isRange : ColumnTest → Bool
  | between .. | notBetween .. => true
  | _ => false

namespace Restriction

lemma dot_notMem_joined {separator : String} (hseparator : '.' ∉ separator.toList)
    {names : List String} (hnames : ∀ name ∈ names, '.' ∉ name.toList) :
    '.' ∉ (joined separator names).toList := by
  induction names with
  | nil => simp [joined]
  | cons name names ih =>
    obtain ⟨hname, hnames⟩ := List.forall_mem_cons.1 hnames
    cases names with
    | nil => exact hname
    | cons next names =>
      have hrest := ih hnames
      simp [joined, hname, hseparator, hrest]

/-- Behind its column, the text of a comparison goes on with a blank, and has no dot. -/
lemma exists_comparisonText {c : ColumnCondition} {names : List String}
    (hnames : ∀ name ∈ names, '.' ∉ name.toList) (hrange : c.test.isRange = false) :
    ∃ rest : String, '.' ∉ rest.toList ∧
      ∀ owner, comparisonText owner c names = owner ++ "." ++ c.column ++ " " ++ rest := by
  have hfirst : '.' ∉ (names[0]?.getD "?").toList := by
    cases names with
    | nil => simp
    | cons name names => exact hnames name List.mem_cons_self
  have hall : '.' ∉ (commaList names).toList := dot_notMem_joined (by simp) hnames
  have hsign (s : Sign) : '.' ∉ (s.word ++ " " ++ names[0]?.getD "?").toList := by
    cases s <;> simp [Sign.word, hfirst]
  have hlist (word : String) (hword : '.' ∉ word.toList) :
      '.' ∉ (word ++ " (" ++ commaList names ++ ")").toList := by
    simp [hword, hall]
  have hlike : '.' ∉ ("LIKE " ++ names[0]?.getD "?" ++ " ESCAPE '\\'").toList := by
    simp [hfirst]
  obtain ⟨column, test⟩ := c
  cases test with
  | eq => exact ⟨_, hsign .eq, fun _ => by simp [comparisonText, Sign.word, ← String.toList_inj]⟩
  | ne => exact ⟨_, hsign .ne, fun _ => by simp [comparisonText, Sign.word, ← String.toList_inj]⟩
  | lt => exact ⟨_, hsign .lt, fun _ => by simp [comparisonText, Sign.word, ← String.toList_inj]⟩
  | lte => exact ⟨_, hsign .lte, fun _ => by simp [comparisonText, Sign.word, ← String.toList_inj]⟩
  | gt => exact ⟨_, hsign .gt, fun _ => by simp [comparisonText, Sign.word, ← String.toList_inj]⟩
  | gte => exact ⟨_, hsign .gte, fun _ => by simp [comparisonText, Sign.word, ← String.toList_inj]⟩
  | isIn =>
    exact ⟨_, hlist "IN" (by simp), fun _ => by simp [comparisonText, ← String.toList_inj]⟩
  | notIn =>
    exact ⟨_, hlist "NOT IN" (by simp), fun _ => by simp [comparisonText, ← String.toList_inj]⟩
  | isNull =>
    exact ⟨"IS NULL", by simp, fun _ => by simp [comparisonText, ← String.toList_inj]⟩
  | isNotNull =>
    exact ⟨"IS NOT NULL", by simp, fun _ => by simp [comparisonText, ← String.toList_inj]⟩
  | startsWith | endsWith | contains =>
    exact ⟨_, hlike, fun _ => by simp [comparisonText, ← String.toList_inj]⟩
  | between | notBetween => cases hrange

end Restriction

namespace ColumnTest

/-- A test of text holds of the texts that its pattern accepts. -/
lemma holds_startsWith (s : String) (v : Value) :
    (startsWith s).holds v = v.asText?.any (Like.accepts (Like.startingWith s)) := by
  have hsame (t : String) : Text.startsWith t s = Like.accepts (Like.startingWith s) t :=
    Bool.eq_iff_iff.2 (List.isPrefixOf_iff_prefix.trans Like.accepts_startingWith_iff.symm)
  simp only [holds, hsame]

lemma holds_endsWith (s : String) (v : Value) :
    (endsWith s).holds v = v.asText?.any (Like.accepts (Like.endingWith s)) := by
  have hsame (t : String) : Text.endsWith t s = Like.accepts (Like.endingWith s) t :=
    Bool.eq_iff_iff.2 (List.isSuffixOf_iff_suffix.trans Like.accepts_endingWith_iff.symm)
  simp only [holds, hsame]

lemma holds_contains (s : String) (v : Value) :
    (contains s).holds v = v.asText?.any (Like.accepts (Like.containing s)) := by
  have hsame (t : String) : Text.contains t s = Like.accepts (Like.containing s) t :=
    Bool.eq_iff_iff.2 (Iff.trans containsRun_iff_infix Like.accepts_containing_iff.symm)
  simp only [holds, hsame]

end ColumnTest

namespace Clause

/-- Reads a comparison of `column` at the front of a text: whether it holds of a cell, and the rest
of the text. Behind LIKE, a parameter is bound to a pattern. -/
def leading? (bound? : String → Option Value) (column : String) (v : Value) (cs : List Char) :
    Option (Bool × List Char) :=
  match single? column cs with
  | some (c, rest) => (c.holds? bound? v).map (·, rest)
  | none => do
    let cs ← behind? (column ++ " LIKE ") cs
    let pattern ← (bound? (String.ofList (cs.takeWhile isNameChar))).bind Value.asText?
    let rest ← behind? " ESCAPE '\\'" (cs.dropWhile isNameChar)
    return (v.asText?.any (Like.accepts pattern), rest)

variable {bound? : String → Option Value} {column : String} {names : List String} {v : Value}
  {rest : List Char}

lemma leading?_of_single? {cs : List Char} {c : Clause} {b : Bool}
    (hsingle : single? column cs = some (c, rest)) (hholds : c.holds? bound? v = some b) :
    leading? bound? column v cs = some (b, rest) := by
  rw [leading?, hsingle]
  simp [hholds]

lemma leading?_sign (s : Sign) {w : Value} (hplain : ∀ name ∈ names, IsPlain name)
    (hbound : names.map bound? = [some w]) (hrest : rest.takeWhile isNameChar = []) :
    leading? bound? column v
        ((column ++ " " ++ s.word ++ " " ++ names[0]?.getD "?").toList ++ rest) =
      some ((s.test w).holds v, rest) := by
  obtain ⟨name, rfl, hname⟩ := List.map_eq_singleton_iff.1 hbound
  have hsingle := single?_compared column s (hplain name List.mem_cons_self) hrest
  have hholds : (compared s name).holds? bound? v = some ((s.test w).holds v) := by
    rw [holds?, hname]
    rfl
  have hread := leading?_of_single? hsingle hholds
  simpa using hread

/-- LIKE opens no clause. -/
lemma single?_like (column : String) (cs : List Char) :
    single? column ((column ++ " LIKE ").toList ++ cs) = none := by
  have hbehind : behind? (column ++ " ") ((column ++ " LIKE ").toList ++ cs) =
      some ("LIKE ".toList ++ cs) := by
    have happend := behind?_append (column ++ " ") ("LIKE ".toList ++ cs)
    simpa using happend
  have hchoice : choice? openings ("LIKE ".toList ++ cs) = none := by
    simp [choice?, openings, behind?, Sign.all, Sign.word, List.dropPrefix?]
  rw [single?, hbehind]
  simp only [Option.bind_eq_bind, Option.bind_some, hchoice, Option.bind_none]

lemma leading?_like {pattern : String} (hplain : ∀ name ∈ names, IsPlain name)
    (hbound : names.map bound? = [some (.text pattern)]) :
    leading? bound? column v
        ((column ++ " LIKE " ++ names[0]?.getD "?" ++ " ESCAPE '\\'").toList ++ rest) =
      some (v.asText?.any (Like.accepts pattern), rest) := by
  obtain ⟨name, rfl, hname⟩ := List.map_eq_singleton_iff.1 hbound
  let escape := " ESCAPE '\\'".toList ++ rest
  have htext : (column ++ " LIKE " ++ [name][0]?.getD "?" ++ " ESCAPE '\\'").toList ++ rest =
      (column ++ " LIKE ").toList ++ (name.toList ++ escape) := by
    simp [escape]
  have htake : (name.toList ++ escape).takeWhile isNameChar = name.toList := by
    rw [List.takeWhile_append_of_pos (hplain name List.mem_cons_self)]
    exact List.append_nil _
  have hdrop : (name.toList ++ escape).dropWhile isNameChar = escape := by
    rw [List.dropWhile_append_of_pos (hplain name List.mem_cons_self)]
    rfl
  rw [htext, leading?, single?_like]
  simp only [behind?_append, Option.bind_eq_bind, Option.bind_some, htake, hdrop,
    String.ofList_toList, hname, Value.asText?]
  rw [behind?_append]
  rfl

end Clause

/-- A comparison as lowering makes it, with its parameters: no range, its column and its parameters
are plain words, and the parameters are bound to its operands. -/
structure IsLegible (bound? : String → Option Value) (c : ColumnCondition) (names : List String) :
    Prop where
  isRange_eq : c.test.isRange = false
  column_plain : ' ' ∉ c.column.toList ∧ '.' ∉ c.column.toList
  names_plain : ∀ name ∈ names, Clause.IsPlain name ∧ '.' ∉ name.toList
  boundValues_eq : Lowering.boundValues c = .ok c.test.operands
  map_bound? : names.map bound? = c.test.operands.map some

lemma IsLegible.exists_comparisonText {bound? : String → Option Value} {c : ColumnCondition}
    {names : List String} (h : IsLegible bound? c names) :
    ∃ rest : String, '.' ∉ rest.toList ∧ ∀ owner,
      Restriction.comparisonText owner c names = owner ++ "." ++ c.column ++ " " ++ rest :=
  Restriction.exists_comparisonText (fun name hname => (h.names_plain name hname).2) h.isRange_eq

/-- A comparison is read as its test, and what stands behind it is left. -/
lemma IsLegible.leading? {bound? : String → Option Value} {c : ColumnCondition}
    {names : List String} (h : IsLegible bound? c names) (owner : String) (v : Value)
    {rest : List Char} (hrest : rest.takeWhile Clause.isNameChar = []) :
    Clause.leading? bound? (owner ++ "." ++ c.column) v
        ((Restriction.comparisonText owner c names).toList ++ rest) =
      some (c.test.holds v, rest) := by
  obtain ⟨hrange, -, hnames, hvalues, hbound⟩ := h
  have hplain : ∀ name ∈ names, Clause.IsPlain name := fun name hname => (hnames name hname).1
  have hnonempty {ws : List Value} (hws : ws ≠ []) (h : names.map bound? = ws.map some) :
      names ≠ [] := by
    rintro rfl
    exact hws (List.map_eq_nil_iff.1 h.symm)
  obtain ⟨column, test⟩ := c
  cases test with
  | eq w => exact Clause.leading?_sign .eq hplain hbound hrest
  | ne w => exact Clause.leading?_sign .ne hplain hbound hrest
  | lt w => exact Clause.leading?_sign .lt hplain hbound hrest
  | lte w => exact Clause.leading?_sign .lte hplain hbound hrest
  | gt w => exact Clause.leading?_sign .gt hplain hbound hrest
  | gte w => exact Clause.leading?_sign .gte hplain hbound hrest
  | isIn ws =>
    have hopening : ("IN" ++ " (", .listed .oneOf) ∈ Clause.openings := by simp [Clause.openings]
    have hws := Lowering.ne_nil_of_boundValues (.inl hvalues)
    exact Clause.leading?_of_single?
      (Clause.single?_listed _ hopening (hnonempty hws hbound) hplain rest)
      (Clause.holds?_oneOf hbound)
  | notIn ws =>
    have hopening : ("NOT IN" ++ " (", .listed .noneOf) ∈ Clause.openings := by
      simp [Clause.openings]
    have hws := Lowering.ne_nil_of_boundValues (.inr hvalues)
    exact Clause.leading?_of_single?
      (Clause.single?_listed _ hopening (hnonempty hws hbound) hplain rest)
      (Clause.holds?_noneOf (hnonempty hws hbound) hbound)
  | isNull =>
    have hopening : ("IS NULL", .whole .missing) ∈ Clause.openings := by simp [Clause.openings]
    have htext : " IS NULL".toList = ' ' :: "IS NULL".toList := by simp
    exact Clause.leading?_of_single? (Clause.single?_whole _ hopening htext rest) rfl
  | isNotNull =>
    have hopening : ("IS NOT NULL", .whole .present) ∈ Clause.openings := by
      simp [Clause.openings]
    have htext : " IS NOT NULL".toList = ' ' :: "IS NOT NULL".toList := by simp
    exact Clause.leading?_of_single? (Clause.single?_whole _ hopening htext rest) rfl
  | startsWith s =>
    rw [ColumnTest.holds_startsWith]
    exact Clause.leading?_like hplain hbound
  | endsWith s =>
    rw [ColumnTest.holds_endsWith]
    exact Clause.leading?_like hplain hbound
  | contains s =>
    rw [ColumnTest.holds_contains]
    exact Clause.leading?_like hplain hbound
  | between | notBetween => cases hrange

/-- What stands between the members of a list. -/
inductive Junction
  | and
  | or
deriving DecidableEq

namespace Junction

def word : Junction → String
  | and => " AND "
  | or => " OR "

def holds : Junction → List Bool → Bool
  | and, bs => bs.all id
  | or, bs => bs.any id

/-- Between the members of a list with one member there is nothing. -/
lemma holds_congr {j j' : Junction} {bs : List Bool} (hbs : bs ≠ [])
    (h : 1 < bs.length → j = j') : j.holds bs = j'.holds bs := by
  match bs, hbs with
  | [b], _ => cases j <;> cases j' <;> simp [holds]
  | _ :: _ :: _, _ => rw [h (by simp)]

end Junction

namespace Restriction

variable {ρ : Type} {E : Entity ρ} {row : ρ} {bound? : String → Option Value}

mutual

/-- The junctions of the lists without members, from left to right. -/
def emptyLists : Restriction → List Junction
  | always | never | compare _ _ => []
  | all rs => (if rs.isEmpty then [.and] else []) ++ emptyListsOfEach rs
  | any rs => (if rs.isEmpty then [.or] else []) ++ emptyListsOfEach rs
  | not r => emptyLists r

def emptyListsOfEach : List Restriction → List Junction
  | [] => []
  | r :: rs => emptyLists r ++ emptyListsOfEach rs

end

/-- A conjunction or a disjunction. -/
def list : Junction → List Restriction → Restriction
  | .and, rs => all rs
  | .or, rs => any rs

lemma toList_text_list (j : Junction) (rs : List Restriction) :
    ((list j rs).text "").toList = '(' :: ((joined j.word (texts "" rs)).toList ++ [')']) := by
  cases j <;> simp [list, text, Junction.word]

lemma holds_list (j : Junction) (rs : List Restriction) :
    (list j rs).holds E row = j.holds (rs.map fun r => r.holds E row) := by
  cases j with
  | and => simp [list, holds, allHold_eq, Junction.holds]
  | or => simp [list, holds, anyHolds_eq, Junction.holds]

lemma emptyLists_list (j : Junction) (rs : List Restriction) :
    (list j rs).emptyLists = (if rs.isEmpty then [j] else []) ++ emptyListsOfEach rs := by
  cases j <;> rfl

/-- All comparisons of the restriction can be read back. -/
def AllLegible (bound? : String → Option Value) (r : Restriction) : Prop :=
  ∀ l ∈ r.comparisons, IsLegible bound? l.1 l.2

def AllLegibleOfEach (bound? : String → Option Value) (rs : List Restriction) : Prop :=
  ∀ l ∈ comparisonsOfEach rs, IsLegible bound? l.1 l.2

/-- The first character of the text, once the owner is struck out. -/
def opening : Restriction → Char
  | always | never => '1'
  | compare _ _ => '.'
  | all _ | any _ => '('
  | not _ => 'N'

lemma head?_text {r : Restriction} (h : r.AllLegible bound?) :
    (r.text "").toList.head? = some r.opening := by
  cases r with
  | always | never | not => simp [text, opening]
  | all rs => exact congrArg List.head? (toList_text_list .and rs)
  | any rs => exact congrArg List.head? (toList_text_list .or rs)
  | compare c names =>
    have hlegible := h (c, names) List.mem_cons_self
    obtain ⟨rest, -, htext⟩ := hlegible.exists_comparisonText
    rw [text, htext]
    simp [opening]

/-- The text of a list without its brackets, and what stands behind it. -/
def members (j : Junction) (rs : List Restriction) (rest : List Char) : List Char :=
  (joined j.word (texts "" rs)).toList ++ ')' :: rest

/-- What stands behind the first member. -/
def behindFirst (j : Junction) (rs : List Restriction) (rest : List Char) : List Char :=
  if rs.isEmpty then ')' :: rest else j.word.toList ++ members j rs rest

lemma members_cons (j : Junction) (r : Restriction) (rs : List Restriction) (rest : List Char) :
    members j (r :: rs) rest = (r.text "").toList ++ behindFirst j rs rest := by
  cases rs <;> simp [members, behindFirst, texts, joined]

lemma takeWhile_behindFirst (j : Junction) (rs : List Restriction) (rest : List Char) :
    (behindFirst j rs rest).takeWhile Clause.isNameChar = [] := by
  unfold behindFirst
  split
  · rfl
  · cases j <;> rfl

/-- Behind the first member, the list is closed or goes on by its junction. -/
lemma behindFirst_cases {j j' : Junction} {rs ss : List Restriction} {rest rest' : List Char}
    (h : behindFirst j rs rest = behindFirst j' ss rest') :
    rs = [] ∧ ss = [] ∧ rest = rest' ∨ j = j' ∧ members j rs rest = members j' ss rest' := by
  cases rs with
  | nil =>
    cases ss with
    | nil => exact .inl ⟨rfl, rfl, (List.cons.inj h).2⟩
    | cons s ss => cases j' <;> cases h
  | cons r rs =>
    cases ss with
    | nil => cases j <;> cases h
    | cons s ss =>
      refine .inr ?_
      cases j <;> cases j' <;> simp [behindFirst, Junction.word] at h ⊢ <;> exact h

lemma members_list (j : Junction) (rs : List Restriction) (rest : List Char) :
    ((list j rs).text "").toList ++ rest = '(' :: members j rs rest := by
  simp [toList_text_list, members]

/-- A bracket closes the list where no member is left. -/
lemma eq_nil_of_members {j j' : Junction} {rs : List Restriction} {rest rest' : List Char}
    (hrs : AllLegibleOfEach bound? rs) (h : members j rs rest = members j' [] rest') : rs = [] := by
  cases rs with
  | nil => rfl
  | cons r rs =>
    have hr : r.AllLegible bound? := fun l hl => hrs l (List.mem_append_left _ hl)
    have hhead : (members j (r :: rs) rest).head? = some r.opening := by
      rw [members_cons, List.head?_append, head?_text hr]
      rfl
    rw [h] at hhead
    cases r <;> cases hhead

/-- What the texts of `r` and `s` have in common at the front means the same, and leaves the same
on both sides. -/
def ReadAlike (E : Entity ρ) (row : ρ) (r s : Restriction) : Prop :=
  ∀ ⦃rest rest' : List Char⦄ ⦃js js' : List Junction⦄,
    rest.takeWhile Clause.isNameChar = [] → rest'.takeWhile Clause.isNameChar = [] →
    (r.text "").toList ++ rest = (s.text "").toList ++ rest' →
    r.emptyLists ++ js = s.emptyLists ++ js' →
    r.holds E row = s.holds E row ∧ rest = rest' ∧ js = js'

/-- The same of lists of members, up to their brackets. -/
def ReadAlikeOfEach (E : Entity ρ) (row : ρ) (rs ss : List Restriction) : Prop :=
  ∀ ⦃j j' : Junction⦄ ⦃rest rest' : List Char⦄ ⦃js js' : List Junction⦄,
    members j rs rest = members j' ss rest' →
    emptyListsOfEach rs ++ js = emptyListsOfEach ss ++ js' →
    (rs.map fun r => r.holds E row) = (ss.map fun s => s.holds E row) ∧
      (1 < rs.length → j = j') ∧ rest = rest' ∧ js = js'

lemma ReadAlikeOfEach.cons {r s : Restriction} {rs ss : List Restriction}
    (hs : ReadAlikeOfEach E row rs ss) (h : ReadAlike E row r s) :
    ReadAlikeOfEach E row (r :: rs) (s :: ss) := by
  intro j j' rest rest' js js' htext hempty
  rw [members_cons, members_cons] at htext
  rw [emptyListsOfEach, emptyListsOfEach, List.append_assoc, List.append_assoc] at hempty
  obtain ⟨hholds, hbehind, hjs⟩ := h (takeWhile_behindFirst j rs rest)
    (takeWhile_behindFirst j' ss rest') htext hempty
  rcases behindFirst_cases hbehind with ⟨rfl, rfl, hrest⟩ | ⟨rfl, hmembers⟩
  · exact ⟨by rw [List.map_cons, hholds]; rfl, fun h => absurd h (Nat.lt_irrefl 1), hrest, hjs⟩
  · obtain ⟨hmap, -, hrest, hjs⟩ := hs hmembers hjs
    exact ⟨by rw [List.map_cons, List.map_cons, hholds, hmap], fun _ => rfl, hrest, hjs⟩

lemma ReadAlikeOfEach.list {rs ss : List Restriction} (hrs : AllLegibleOfEach bound? rs)
    (hss : AllLegibleOfEach bound? ss) (h : ReadAlikeOfEach E row rs ss) (j j' : Junction) :
    ReadAlike E row (list j rs) (list j' ss) := by
  rintro rest rest' js js' - - htext hempty
  rw [members_list, members_list, List.cons.injEq] at htext
  rw [emptyLists_list, emptyLists_list] at hempty
  rw [holds_list, holds_list]
  cases rs with
  | nil =>
    obtain rfl := eq_nil_of_members hss htext.2.symm
    obtain ⟨rfl, rfl⟩ := List.cons.inj hempty
    exact ⟨rfl, (List.cons.inj htext.2).2, rfl⟩
  | cons r rs =>
    cases ss with
    | nil => cases eq_nil_of_members hrs htext.2
    | cons s ss =>
      obtain ⟨hmap, hjunction, hrest, hjs⟩ := h htext.2 hempty
      refine ⟨?_, hrest, hjs⟩
      rw [hmap]
      refine Junction.holds_congr (by simp) fun hlength => hjunction ?_
      rwa [← hmap, List.length_map] at hlength

lemma ReadAlike.not {r s : Restriction} (h : ReadAlike E row r s) :
    ReadAlike E row (.not r) (.not s) := by
  intro rest rest' js js' hrest hrest' htext hempty
  have htext' : (r.text "").toList ++ rest = (s.text "").toList ++ rest' := by
    simpa [text] using htext
  obtain ⟨hholds, hsame⟩ := h hrest hrest' htext' hempty
  exact ⟨by rw [holds, holds, hholds], hsame⟩

lemma takeWhile_blank {cs : List Char} (h : ' ' ∉ cs) (rest : List Char) :
    (cs ++ ' ' :: rest).takeWhile (· != ' ') = cs := by
  have hall : ∀ c ∈ cs, (c != ' ') = true := fun c hc => bne_iff_ne.2 fun hblank => h (hblank ▸ hc)
  rw [List.takeWhile_append_of_pos hall]
  exact List.append_nil cs

/-- Two comparisons are on the same column, and what stands behind it is read in one way. -/
lemma ReadAlike.compare {c c' : ColumnCondition} {names names' : List String}
    (h : IsLegible bound? c names) (h' : IsLegible bound? c' names') :
    ReadAlike E row (.compare c names) (.compare c' names') := by
  intro rest rest' js js' hrest hrest' htext hjs
  rw [text, text] at htext
  have hcolumn : c.column = c'.column := by
    obtain ⟨tail, -, htail⟩ := h.exists_comparisonText
    obtain ⟨tail', -, htail'⟩ := h'.exists_comparisonText
    have hfront : c.column.toList ++ ' ' :: (tail.toList ++ rest) =
        c'.column.toList ++ ' ' :: (tail'.toList ++ rest') := by
      simpa [htail, htail'] using htext
    have hword := congrArg (List.takeWhile (· != ' ')) hfront
    rw [takeWhile_blank h.column_plain.1, takeWhile_blank h'.column_plain.1] at hword
    exact String.toList_inj.1 hword
  have hread := h.leading? "" (E.read row c.column) hrest
  have hread' := h'.leading? "" (E.read row c'.column) hrest'
  rw [htext, hcolumn, hread'] at hread
  obtain ⟨hholds, hrest⟩ := Prod.mk.inj (Option.some.inj hread)
  refine ⟨?_, hrest.symm, hjs⟩
  simp only [holds, ColumnCondition.holds, hcolumn, hholds]

/-- Texts that agree at the front begin with one character. -/
lemma opening_eq {r s : Restriction} (hr : r.AllLegible bound?) (hs : s.AllLegible bound?)
    {rest rest' : List Char} (h : (r.text "").toList ++ rest = (s.text "").toList ++ rest') :
    r.opening = s.opening := by
  have hhead := congrArg List.head? h
  rw [List.head?_append, List.head?_append, head?_text hr, head?_text hs] at hhead
  exact Option.some.inj hhead

/-- Restrictions whose texts begin with different characters have nothing in common. -/
lemma ReadAlike.of_opening_ne {r s : Restriction} (hr : r.AllLegible bound?)
    (hs : s.AllLegible bound?) (h : r.opening ≠ s.opening) : ReadAlike E row r s := by
  rintro rest rest' js js' - - htext -
  exact absurd (opening_eq hr hs htext) h

mutual

theorem readAlike : ∀ r s : Restriction, r.AllLegible bound? → s.AllLegible bound? →
    ReadAlike E row r s
  | .always, s, hr, hs => by
    cases s with
    | always =>
      rintro rest rest' js js' - - htext hjs
      exact ⟨rfl, List.append_cancel_left htext, hjs⟩
    | never =>
      rintro rest rest' js js' - - htext -
      simp [text] at htext
    | _ => exact .of_opening_ne hr hs (by simp [opening])
  | .never, s, hr, hs => by
    cases s with
    | always =>
      rintro rest rest' js js' - - htext -
      simp [text] at htext
    | never =>
      rintro rest rest' js js' - - htext hjs
      exact ⟨rfl, List.append_cancel_left htext, hjs⟩
    | _ => exact .of_opening_ne hr hs (by simp [opening])
  | .compare c names, s, hr, hs => by
    cases s with
    | compare c' names' =>
      exact .compare (hr (c, names) List.mem_cons_self) (hs (c', names') List.mem_cons_self)
    | _ => exact .of_opening_ne hr hs (by simp [opening])
  | .all rs, s, hr, hs => by
    cases s with
    | all ss => exact (readAlikeOfEach rs ss hr hs).list hr hs .and .and
    | any ss => exact (readAlikeOfEach rs ss hr hs).list hr hs .and .or
    | _ => exact .of_opening_ne hr hs (by simp [opening])
  | .any rs, s, hr, hs => by
    cases s with
    | all ss => exact (readAlikeOfEach rs ss hr hs).list hr hs .or .and
    | any ss => exact (readAlikeOfEach rs ss hr hs).list hr hs .or .or
    | _ => exact .of_opening_ne hr hs (by simp [opening])
  | .not r, s, hr, hs => by
    cases s with
    | not s => exact (readAlike r s hr hs).not
    | _ => exact .of_opening_ne hr hs (by simp [opening])

theorem readAlikeOfEach : ∀ rs ss : List Restriction, AllLegibleOfEach bound? rs →
    AllLegibleOfEach bound? ss → ReadAlikeOfEach E row rs ss
  | [], ss, hrs, hss => by
    intro j j' rest rest' js js' htext hempty
    obtain rfl := eq_nil_of_members hss htext.symm
    exact ⟨rfl, nofun, (List.cons.inj htext).2, hempty⟩
  | r :: rs, [], hrs, hss => by
    intro j j' rest rest' js js' htext hempty
    cases eq_nil_of_members hrs htext
  | r :: rs, s :: ss, hrs, hss => by
    obtain ⟨hr, hrs⟩ := List.forall_mem_append.1 hrs
    obtain ⟨hs, hss⟩ := List.forall_mem_append.1 hss
    exact (readAlikeOfEach rs ss hrs hss).cons (readAlike r s hr hs)

end

mutual

/-- Without its owner, a text is the text that has none. -/
theorem disowns_text (owner : String) : ∀ r : Restriction, r.AllLegible bound? →
    Disowns owner (r.text owner) (r.text "")
  | .always, _ | .never, _ => .of_notMem (by simp [text])
  | .compare c names, hr => by
    have hlegible : IsLegible bound? c names := hr (c, names) List.mem_cons_self
    obtain ⟨rest, hrest, htext⟩ := hlegible.exists_comparisonText
    have hcolumn : Disowns owner c.column c.column := .of_notMem hlegible.column_plain.2
    have hblank : Disowns owner " " " " := .of_notMem (by simp)
    have hwhole := (((Disowns.dot owner).append hcolumn).append hblank).append (.of_notMem hrest)
    rw [text, text, htext, htext, String.empty_append]
    exact hwhole
  | .all rs, hr => by
    have hmembers := Disowns.joined " AND " (by simp) (disowns_texts owner rs hr)
    rw [text, text]
    exact ((Disowns.of_notMem (by simp)).append hmembers).append (.of_notMem (by simp))
  | .any rs, hr => by
    have hmembers := Disowns.joined " OR " (by simp) (disowns_texts owner rs hr)
    rw [text, text]
    exact ((Disowns.of_notMem (by simp)).append hmembers).append (.of_notMem (by simp))
  | .not r, hr => by
    rw [text, text]
    exact (Disowns.of_notMem (by simp)).append (disowns_text owner r hr)

theorem disowns_texts (owner : String) : ∀ rs : List Restriction, AllLegibleOfEach bound? rs →
    List.Forall₂ (Disowns owner) (texts owner rs) (texts "" rs)
  | [], _ => .nil
  | r :: rs, hrs => by
    obtain ⟨hr, hrs⟩ := List.forall_mem_append.1 hrs
    exact .cons (disowns_text owner r hr) (disowns_texts owner rs hrs)

end

end Restriction

namespace Lowering

variable {ρ : Type} {E : Entity ρ} {used : Nat} {p : Predicate ρ} {r : Restriction}
  {bindings : List Binding}

/-- The value to which a list of bindings binds a parameter. -/
def boundIn (bindings : List Binding) (name : String) : Option Value :=
  (bindings.find? fun b => b.name == name).map Binding.value

lemma boundIn_of_mem {bindings : List Binding} (hnodup : (bindings.map Binding.name).Nodup)
    {b : Binding} (hb : b ∈ bindings) : boundIn bindings b.name = some b.value := by
  rw [boundIn, find?_name hnodup hb]
  rfl

/-- What lowering makes of a predicate without ranges can be read back, if columns hold neither
blanks nor dots. -/
lemma allLegible_of_lower
    (hcolumns : ∀ column ∈ E.columns, ' ' ∉ column.toList ∧ '.' ∉ column.toList)
    (h : lower E used p = .ok (r, bindings))
    (hranges : ∀ c ∈ p.conditions, c.test.isRange = false) : r.AllLegible (boundIn bindings) := by
  obtain ⟨rfl, rfl⟩ := Prod.mk.inj (lower_eq used p h)
  rintro ⟨c, names⟩ hl
  rw [Predicate.comparisons_stated] at hl
  have hc : c ∈ p.conditions := by
    rw [← map_fst_allot used p.conditions]
    exact List.mem_map_of_mem hl
  have hstatable := isStatable_of_lower h hc
  obtain ⟨before, hnames, hsubset⟩ := exists_bind_of_mem_allot hl
  obtain rfl : names = (bind before c.test.operands).map Binding.name := hnames
  have hnodup : ((bind used p.operands).map Binding.name).Nodup := by
    rw [map_name_bind]
    exact nodup_parameterNames _ _
  refine
    { isRange_eq := hranges c hc
      column_plain := hcolumns c.column hstatable.column_mem
      names_plain := fun name hname => ?_
      boundValues_eq := boundValues_of_isStatable hstatable
      map_bound? := map_bound?_bind fun b hb => boundIn_of_mem hnodup (hsubset hb) }
  rw [map_name_bind] at hname
  obtain ⟨i, -, rfl⟩ := List.mem_map.1 hname
  refine ⟨isPlain_parameterName _, fun hdot => ?_⟩
  rcases mem_parameterName hdot with h | h | h <;> cases h

/-- The text of a restriction and the values of its parameters say which rows pass the predicate
that was lowered to it, if it compares with no ranges. Only a list without members does not show in
its text whether it is a conjunction or a disjunction. -/
theorem restriction_text_unambiguous {q : Predicate ρ} {s : Restriction}
    (hcolumns : ∀ column ∈ E.columns, ' ' ∉ column.toList ∧ '.' ∉ column.toList)
    (hp : lower E used p = .ok (r, bindings)) (hq : lower E used q = .ok (s, bindings))
    (hpranges : ∀ c ∈ p.conditions, c.test.isRange = false)
    (hqranges : ∀ c ∈ q.conditions, c.test.isRange = false) (owner : String)
    (htext : r.text owner = s.text owner) (hempty : r.emptyLists = s.emptyLists) (row : ρ) :
    p.test E row = q.test E row := by
  have hr := allLegible_of_lower hcolumns hp hpranges
  have hs := allLegible_of_lower hcolumns hq hqranges
  have hfree : r.text "" = s.text "" := by
    have hdisowns := Restriction.disowns_text owner r hr
    rw [htext] at hdisowns
    exact hdisowns.unique (Restriction.disowns_text owner s hs)
  have hread : r.holds E row = s.holds E row :=
    (Restriction.readAlike r s hr hs rfl rfl (congrArg (·.toList ++ []) hfree)
      (congrArg (· ++ []) hempty)).1
  calc p.test E row = r.holds E row := ((lower_ok used p hp).holds_eq row).symm
    _ = s.holds E row := hread
    _ = q.test E row := (lower_ok used q hq).holds_eq row

theorem restriction_text_unambiguous_records :
    let E := Entity.ofColumns "Person" "id" ["id", "age"]
    let old : Predicate Record := .column ⟨"age", .gte (.int 18)⟩
    let listed : Predicate Record := .column ⟨"id", .isIn [.int 3, .int 5]⟩
    let p : Predicate Record := .all [.any [old], .not listed, .any []]
    let q : Predicate Record := .all [.all [old], .not listed, .any []]
    p.stated 0 ≠ q.stated 0 ∧
      (p.stated 0).text "p" = "((p.age >= :p1) AND NOT p.id IN (:p2, :p3) AND ())" ∧
      ∀ row, p.test E row = q.test E row := by
  intro E old listed p q
  have hcolumns : ∀ column ∈ E.columns, ' ' ∉ column.toList ∧ '.' ∉ column.toList := by decide
  have hp : lower E 0 p = .ok (p.stated 0, bind 0 p.operands) := rfl
  have hq : lower E 0 q = .ok (q.stated 0, bind 0 q.operands) := rfl
  have hranges : ∀ c ∈ p.conditions, c.test.isRange = false := by decide
  refine ⟨nofun, by decide, fun row => ?_⟩
  exact restriction_text_unambiguous hcolumns hp hq hranges hranges "p" rfl rfl row

/-- A conjunction and a disjunction without members have the same text, and opposite meanings. -/
theorem empty_lists_read_alike :
    let E := Entity.ofColumns "Person" "id" ["id"]
    let p : Predicate Record := .not (.all [])
    let q : Predicate Record := .not (.any [])
    let row : Record := ⟨[("id", .int 1)]⟩
    ∃ r s bindings, lower E 0 p = .ok (r, bindings) ∧ lower E 0 q = .ok (s, bindings) ∧
      r.text "p" = s.text "p" ∧ p.test E row ≠ q.test E row := by
  intro E p q row
  exact ⟨.not (.all []), .not (.any []), [], rfl, rfl, rfl, nofun⟩

end Lowering
end Pushdown
