import Mathlib.Data.List.Infix
import Mathlib.Data.Option.NAry
import Pushdown.Proofs.Bindings

/-!
# Printed comparisons

The text of a comparison is read back as a clause on its column, whose parts stand for the tests of
the same name, and whose parameters stand for the values that are bound to them. So read, it says of
a cell what the comparison tests, with one exception: of a range that is left out, both bounds are
tested together, and the text joins one test of each by OR. A cell that compares with one bound only
fails the test, but makes the text true if it lies beyond that bound.
-/

namespace Pushdown

/-- How a column is compared with one parameter. -/
inductive Sign
  | eq
  | ne
  | lt
  | lte
  | gt
  | gte
deriving DecidableEq

namespace Sign

def all : List Sign := [eq, ne, lt, lte, gt, gte]

def word : Sign → String
  | eq => "="
  | ne => "<>"
  | lt => "<"
  | lte => "<="
  | gt => ">"
  | gte => ">="

def test (v : Value) : Sign → ColumnTest
  | eq => .eq v
  | ne => .ne v
  | lt => .lt v
  | lte => .lte v
  | gt => .gt v
  | gte => .gte v

/-- The orders of a cell and a parameter under which the comparison holds. -/
def accepts : Sign → Ordering → Bool
  | eq, o => o == .eq
  | ne, o => o != .eq
  | lt, o => o == .lt
  | lte, o => o != .gt
  | gt, o => o == .gt
  | gte, o => o != .lt

lemma holds_test (s : Sign) (v w : Value) :
    (s.test w).holds v = (v.strictCompare? w).any s.accepts := by
  cases s <;> simp only [test, ColumnTest.holds] <;> cases v.strictCompare? w with
  | none => rfl
  | some o => cases o <;> rfl

end Sign

/-- What the text of a comparison says of its column. -/
inductive Clause
  | compared (sign : Sign) (parameter : String)
  | oneOf (parameters : List String)
  | noneOf (parameters : List String)
  | missing
  | present
  | both (c d : Clause)
  | either (c d : Clause)
deriving DecidableEq

namespace Clause

/-- Does the clause hold of a cell? That is undefined if a parameter has no value. -/
def holds? (bound? : String → Option Value) (v : Value) : Clause → Option Bool
  | compared sign name => (bound? name).map fun w => (sign.test w).holds v
  | oneOf names => (names.mapM bound?).map fun ws => ws.any fun w => (ColumnTest.eq w).holds v
  | noneOf names => (names.mapM bound?).map fun ws => ws.all fun w => (ColumnTest.ne w).holds v
  | missing => some (ColumnTest.isNull.holds v)
  | present => some (ColumnTest.isNotNull.holds v)
  | both c d => Option.map₂ (· && ·) (c.holds? bound? v) (d.holds? bound? v)
  | either c d => Option.map₂ (· || ·) (c.holds? bound? v) (d.holds? bound? v)

/-- How a clause goes on behind its column: with one parameter, with a list of them, or not. -/
inductive Opening
  | sign (s : Sign)
  | listed (clause : List String → Clause)
  | whole (clause : Clause)

def openings : List (String × Opening) :=
  Sign.all.map (fun s => (s.word ++ " ", .sign s)) ++
    [("IN (", .listed .oneOf), ("NOT IN (", .listed .noneOf), ("IS NULL", .whole .missing),
      ("IS NOT NULL", .whole .present)]

def behind? (word : String) (cs : List Char) : Option (List Char) := cs.dropPrefix? word.toList

/-- The first of the words at which the text begins, by what it stands for, and the rest. -/
def choice? {α : Type} (words : List (String × α)) (cs : List Char) : Option (α × List Char) :=
  words.findSome? fun w => (behind? w.1 cs).map (w.2, ·)

/-- A parameter ends at a blank, a comma or a bracket. -/
def isNameChar (c : Char) : Bool := c != ' ' && c != ',' && c != ')'

def IsPlain (name : String) : Prop := ∀ c ∈ name.toList, isNameChar c = true

/-- The parameters up to the bracket, the first of which begins with the characters of `name`, the
last one first. -/
def names? (name : List Char) : List Char → Option (List String × List Char)
  | [] => none
  | ')' :: cs => some ([String.ofList name.reverse], cs)
  | ',' :: ' ' :: cs => (names? [] cs).map fun r => (String.ofList name.reverse :: r.1, r.2)
  | c :: cs => names? (c :: name) cs

/-- Reads on behind the opening of a clause. -/
def Opening.clause? (cs : List Char) : Opening → Option (Clause × List Char)
  | sign s => some (.compared s (String.ofList (cs.takeWhile isNameChar)), cs.dropWhile isNameChar)
  | listed clause => (names? [] cs).map fun r => (clause r.1, r.2)
  | whole clause => some (clause, cs)

/-- A clause without brackets around it, and the rest of the text. -/
def single? (column : String) (cs : List Char) : Option (Clause × List Char) := do
  let cs ← behind? (column ++ " ") cs
  let (opening, cs) ← choice? openings cs
  opening.clause? cs

def junctions : List (String × (Clause → Clause → Clause)) := [(" AND ", both), (" OR ", either)]

def pair? (column : String) (cs : List Char) : Option Clause := do
  let cs ← behind? "(" cs
  let (c, cs) ← single? column cs
  let (join, cs) ← choice? junctions cs
  let (d, cs) ← single? column cs
  if cs = [')'] then some (join c d) else none

/-- Reads a text about `column`: one clause, or two of them in brackets, with AND or OR between. -/
def read? (column text : String) : Option Clause :=
  match single? column text.toList with
  | some (c, []) => some c
  | _ => pair? column text.toList

section Reading

variable {column : String}

lemma behind?_append (word : String) (cs : List Char) :
    behind? word (word.toList ++ cs) = some cs :=
  List.dropPrefix?_append_of_beq cs (beq_self_eq_true _)

/-- No opening begins with another. -/
lemma choice?_openings {word : String} {opening : Opening} (h : (word, opening) ∈ openings)
    (cs : List Char) : choice? openings (word.toList ++ cs) = some (opening, cs) := by
  simp only [openings, Sign.all, List.map_cons, List.map_nil, List.cons_append, List.nil_append,
    List.mem_cons, Prod.mk.injEq, List.not_mem_nil, or_false] at h
  rcases h with h | h | h | h | h | h | h | h | h | h <;> obtain ⟨rfl, rfl⟩ := h <;>
    simp [choice?, openings, behind?, Sign.all, Sign.word, List.dropPrefix?]

lemma sign_mem_openings (s : Sign) : (s.word ++ " ", .sign s) ∈ openings :=
  List.mem_append_left _ (List.mem_map.2 ⟨s, by cases s <;> simp [Sign.all], rfl⟩)

/-- Behind its column, a clause is read by its opening. -/
lemma single?_append (column : String) {word : String} {opening : Opening}
    (h : (word, opening) ∈ openings) (cs : List Char) :
    single? column (column.toList ++ ' ' :: (word.toList ++ cs)) = opening.clause? cs := by
  have hbehind : behind? (column ++ " ") (column.toList ++ ' ' :: (word.toList ++ cs)) =
      some (word.toList ++ cs) := by
    have happend := behind?_append (column ++ " ") (word.toList ++ cs)
    rwa [String.toList_append, List.append_assoc] at happend
  rw [single?, hbehind]
  simp [choice?_openings h]

lemma single?_compared (column : String) (s : Sign) {name : String} (hname : IsPlain name)
    {rest : List Char} (hrest : rest.takeWhile isNameChar = []) :
    single? column (column.toList ++ ' ' :: (s.word.toList ++ ' ' :: (name.toList ++ rest))) =
      some (.compared s name, rest) := by
  have hdrop : rest.dropWhile isNameChar = rest := by
    have hsplit := List.takeWhile_append_dropWhile (p := isNameChar) (l := rest)
    rwa [hrest] at hsplit
  have hopening := single?_append column (sign_mem_openings s) (name.toList ++ rest)
  rw [String.toList_append, List.append_assoc] at hopening
  refine hopening.trans ?_
  rw [Opening.clause?, List.takeWhile_append_of_pos hname, hrest, List.append_nil, String.ofList_toList,
    List.dropWhile_append_of_pos hname, hdrop]

lemma names?_append {name : List Char} (hname : ∀ c ∈ name, isNameChar c = true)
    (before cs : List Char) : names? before (name ++ cs) = names? (name.reverse ++ before) cs := by
  induction name generalizing before with
  | nil => rfl
  | cons c name ih =>
    obtain ⟨hc, hname⟩ := List.forall_mem_cons.1 hname
    simp only [isNameChar, Bool.and_eq_true, bne_iff_ne] at hc
    obtain ⟨⟨-, hcomma⟩, hbracket⟩ := hc
    rw [List.cons_append, names?, ih hname, List.reverse_cons, List.append_assoc]
    · rfl
    · exact hbracket
    · rintro _ rfl
      exact absurd rfl hcomma

/-- A list of parameters is read up to its bracket. -/
lemma names?_commaList {names : List String} (hnames : names ≠ [])
    (hplain : ∀ name ∈ names, IsPlain name) (rest : List Char) :
    names? [] ((commaList names).toList ++ ')' :: rest) = some (names, rest) := by
  induction names with
  | nil => exact absurd rfl hnames
  | cons name names ih =>
    obtain ⟨hname, hplain⟩ := List.forall_mem_cons.1 hplain
    cases names with
    | nil =>
      change names? [] (name.toList ++ ')' :: rest) = _
      rw [names?_append hname, names?, List.append_nil, List.reverse_reverse,
        String.ofList_toList]
    | cons next names =>
      have htext : (commaList (name :: next :: names)).toList ++ ')' :: rest =
          name.toList ++ ',' :: ' ' :: ((commaList (next :: names)).toList ++ ')' :: rest) := by
        simp [commaList, joined]
      rw [htext, names?_append hname, names?, ih (List.cons_ne_nil _ _) hplain, List.append_nil,
        List.reverse_reverse, String.ofList_toList]
      rfl

/-- What begins with a bracket does not begin with the column, even if the column itself does. -/
lemma single?_bracket (column : String) (cs : List Char) :
    single? column ('(' :: (column.toList ++ cs)) = none := by
  have hnone : behind? (column ++ " ") ('(' :: (column.toList ++ cs)) = none := by
    refine Option.eq_none_iff_forall_ne_some.2 fun rest hrest => ?_
    obtain ⟨word, happend, hword⟩ := List.dropPrefix?_eq_some_iff.1 hrest
    obtain rfl := eq_of_beq hword
    rw [String.toList_append, ← List.cons_append] at happend
    have hsame : '(' :: column.toList = column.toList ++ [' '] :=
      List.append_inj_left happend (by simp)
    have hcount := congrArg (List.count '(') hsame
    simp at hcount
  rw [single?, hnone]
  rfl

lemma read?_of_single? {text : String} {c : Clause} (h : single? column text.toList = some (c, [])) :
    read? column text = some c := by
  rw [read?, h]

lemma read?_compared (column : String) (s : Sign) {name : String}
    (hname : IsPlain name) :
    read? column (column ++ " " ++ s.word ++ " " ++ name) = some (.compared s name) := by
  apply read?_of_single?
  have hnone : ([] : List Char).takeWhile isNameChar = [] := rfl
  have hsingle := single?_compared column s hname hnone
  simpa using hsingle

/-- A list of parameters is read up to the bracket behind it. -/
lemma single?_listed (column : String) {word : String} {clause : List String → Clause}
    (hword : (word ++ " (", .listed clause) ∈ openings) {names : List String} (hnames : names ≠ [])
    (hplain : ∀ name ∈ names, IsPlain name) (rest : List Char) :
    single? column ((column ++ " " ++ word ++ " (" ++ commaList names ++ ")").toList ++ rest) =
      some (clause names, rest) := by
  have htext : (column ++ " " ++ word ++ " (" ++ commaList names ++ ")").toList ++ rest =
      column.toList ++ ' ' ::
        ((word ++ " (").toList ++ ((commaList names).toList ++ ')' :: rest)) := by
    simp
  rw [htext, single?_append column hword, Opening.clause?, names?_commaList hnames hplain]
  rfl

lemma read?_listed (column : String) {word : String} {clause : List String → Clause}
    (hword : (word ++ " (", .listed clause) ∈ openings) {names : List String} (hnames : names ≠ [])
    (hplain : ∀ name ∈ names, IsPlain name) :
    read? column (column ++ " " ++ word ++ " (" ++ commaList names ++ ")") =
      some (clause names) := by
  apply read?_of_single?
  have hlisted := single?_listed column hword hnames hplain []
  rwa [List.append_nil] at hlisted

/-- A clause without parameters ends with its word. -/
lemma single?_whole (column : String) {word text : String} {clause : Clause}
    (hword : (word, .whole clause) ∈ openings) (htext : text.toList = ' ' :: word.toList)
    (rest : List Char) : single? column ((column ++ text).toList ++ rest) = some (clause, rest) := by
  have hopening := single?_append column hword rest
  rwa [← List.cons_append, ← htext, ← List.append_assoc, ← String.toList_append] at hopening

lemma read?_whole (column : String) {word text : String} {clause : Clause}
    (hword : (word, .whole clause) ∈ openings) (htext : text.toList = ' ' :: word.toList) :
    read? column (column ++ text) = some clause := by
  apply read?_of_single?
  have hwhole := single?_whole column hword htext []
  rwa [List.append_nil] at hwhole

/-- Two comparisons in brackets are read as one clause. -/
lemma read?_pair (column : String) (s s' : Sign) {junction : String} {join : Clause → Clause → Clause}
    (hjunction : ∀ cs, choice? junctions (' ' :: (junction.toList ++ ' ' :: cs)) = some (join, cs))
    {name name' : String} (hname : IsPlain name)
    (hname' : IsPlain name') :
    read? column ("(" ++ column ++ " " ++ s.word ++ " " ++ name ++ " " ++ junction ++ " " ++
      column ++ " " ++ s'.word ++ " " ++ name' ++ ")") =
      some (join (.compared s name) (.compared s' name')) := by
  let second := column.toList ++ ' ' :: (s'.word.toList ++ ' ' :: (name'.toList ++ [')']))
  let rest := ' ' :: (junction.toList ++ ' ' :: second)
  let first := column.toList ++ ' ' :: (s.word.toList ++ ' ' :: (name.toList ++ rest))
  have htext : ("(" ++ column ++ " " ++ s.word ++ " " ++ name ++ " " ++ junction ++ " " ++
      column ++ " " ++ s'.word ++ " " ++ name' ++ ")").toList = '(' :: first := by
    simp [first, rest, second]
  have hbracket : behind? "(" ('(' :: first) = some first := behind?_append "(" first
  have hfirst : single? column first = some (.compared s name, rest) :=
    single?_compared column s hname rfl
  have hsecond : single? column second = some (.compared s' name', [')']) :=
    single?_compared column s' hname' rfl
  rw [read?, htext, single?_bracket, pair?, hbracket]
  simp [hfirst, hjunction second, hsecond, rest]

end Reading

end Clause

namespace Inclusion

/-- How a cell in the range compares with its start. -/
def fromStart (i : Inclusion) : Sign := if i.includesStart then .gte else .gt

def toEnd (i : Inclusion) : Sign := if i.includesEnd then .lte else .lt

/-- How a cell in front of the range compares with its start. -/
def beforeStart (i : Inclusion) : Sign := if i.includesStart then .lt else .lte

def behindEnd (i : Inclusion) : Sign := if i.includesEnd then .gt else .gte

end Inclusion

lemma Value.strictCompare?_swap (v w : Value) :
    w.strictCompare? v = (v.strictCompare? w).map Ordering.swap := by
  cases v with
  | null => cases w <;> rfl
  | bool a =>
    cases w with
    | bool b => exact congrArg some Std.OrientedCmp.eq_swap
    | _ => rfl
  | int a =>
    cases w with
    | int b => exact congrArg some Std.OrientedCmp.eq_swap
    | _ => rfl
  | float x =>
    cases w with
    | float y =>
      simp only [strictCompare?, Binary64.compare?, Bool.or_comm y.isNaN]
      split
      · rfl
      · exact congrArg some Std.OrientedCmp.eq_swap
    | _ => rfl
  | text a =>
    cases w with
    | text b => exact congrArg some Std.OrientedCmp.eq_swap
    | _ => rfl

lemma Value.strictCompare?_of_isNull {v : Value} (h : v.isNull = true) (w : Value) :
    v.strictCompare? w = none := by
  cases v with
  | null => rfl
  | _ => cases h

namespace Inclusion

variable {start last : Value}

lemma startAccepts?_eq (i : Inclusion) (v start : Value) :
    i.startAccepts? v start = (v.strictCompare? start).map i.fromStart.accepts := by
  rw [startAccepts?, Value.strictCompare?_swap v start, Option.map_map]
  congr 1
  funext o
  cases i <;> cases o <;> rfl

lemma endAccepts?_eq (i : Inclusion) (v last : Value) :
    i.endAccepts? v last = (v.strictCompare? last).map i.toEnd.accepts := by
  rw [endAccepts?, Value.strictCompare?_swap v last, Option.map_map]
  congr 1
  funext o
  cases i <;> cases o <;> rfl

lemma accepts_beforeStart (i : Inclusion) (o : Ordering) :
    i.beforeStart.accepts o = !i.fromStart.accepts o := by
  cases i <;> cases o <;> rfl

lemma accepts_behindEnd (i : Inclusion) (o : Ordering) :
    i.behindEnd.accepts o = !i.toEnd.accepts o := by
  cases i <;> cases o <;> rfl

/-- With both bounds given, a range is a comparison with each of them. -/
lemma inRange_eq (i : Inclusion) (v : Value) (hstart : start.isNull = false)
    (hlast : last.isNull = false) :
    i.inRange v start last = ((i.fromStart.test start).holds v && (i.toEnd.test last).holds v) := by
  rw [Sign.holds_test, Sign.holds_test, inRange, startAccepts?_eq, endAccepts?_eq, hstart, hlast]
  cases hv : v.isNull with
  | true => rw [Value.strictCompare?_of_isNull hv]; rfl
  | false => cases v.strictCompare? start <;> cases v.strictCompare? last <;> rfl

/-- With both bounds given, a cell is out of range if it compares with both and lies beyond one. -/
lemma notInRange_eq (i : Inclusion) (v : Value) (hstart : start.isNull = false)
    (hlast : last.isNull = false) :
    i.notInRange v start last =
      ((v.strictCompare? start).isSome && (v.strictCompare? last).isSome &&
        ((i.beforeStart.test start).holds v || (i.behindEnd.test last).holds v)) := by
  unfold notInRange
  rw [Sign.holds_test, Sign.holds_test, startAccepts?_eq, endAccepts?_eq, hstart, hlast]
  cases hv : v.isNull with
  | true => rw [Value.strictCompare?_of_isNull hv]; cases i <;> rfl
  | false =>
    cases v.strictCompare? start with
    | none => rfl
    | some o =>
      cases v.strictCompare? last with
      | none => rfl
      | some o' => simp [accepts_beforeStart, accepts_behindEnd, Bool.not_and]

end Inclusion

namespace ColumnTest

/-- Of a range that is left out, the cell compares with one bound only, and it lies beyond that. -/
def IsHalfOut (test : ColumnTest) (v : Value) : Prop :=
  ∃ start last i, test = .notBetween start last i ∧
    (v.strictCompare? start = none ∧ (i.behindEnd.test last).holds v = true ∨
      v.strictCompare? last = none ∧ (i.beforeStart.test start).holds v = true)

def isLike : ColumnTest → Bool
  | startsWith _ | endsWith _ | contains _ => true
  | _ => false

lemma isHalfOut_notBetween {start last v : Value} {i : Inclusion} :
    (notBetween start last i).IsHalfOut v ↔
      v.strictCompare? start = none ∧ (i.behindEnd.test last).holds v = true ∨
        v.strictCompare? last = none ∧ (i.beforeStart.test start).holds v = true := by
  constructor
  · rintro ⟨start, last, i, htest, hhalf⟩
    cases htest
    exact hhalf
  · exact fun hhalf => ⟨start, last, i, rfl, hhalf⟩

/-- A cell beyond one bound is out of the range, unless it does not compare with the other. -/
lemma holds_notBetween {start last : Value} (i : Inclusion) (v : Value)
    (hstart : start.isNull = false) (hlast : last.isNull = false) :
    let beyond := (i.beforeStart.test start).holds v || (i.behindEnd.test last).holds v
    (¬(notBetween start last i).IsHalfOut v → (notBetween start last i).holds v = beyond) ∧
      ((notBetween start last i).IsHalfOut v →
        (notBetween start last i).holds v = false ∧ beyond = true) := by
  rw [holds, i.notInRange_eq v hstart hlast, isHalfOut_notBetween]
  simp only [Sign.holds_test]
  cases v.strictCompare? start with
  | none => cases v.strictCompare? last <;> simp
  | some o => cases v.strictCompare? last <;> simp

end ColumnTest

namespace Clause

variable {bound? : String → Option Value} {owner : String} {c : ColumnCondition}
  {names : List String} {v : Value}

/-- What the text of a comparison says of a cell, if it is read as one of its column. -/
def truth? (bound? : String → Option Value) (owner : String) (c : ColumnCondition)
    (names : List String) (v : Value) : Option Bool :=
  (read? (owner ++ "." ++ c.column) (Restriction.comparisonText owner c names)).bind
    (holds? bound? v)

lemma mapM_bound? {ws : List Value} (h : names.map bound? = ws.map some) :
    names.mapM bound? = some ws := by
  induction names generalizing ws with
  | nil =>
    obtain rfl : ws = [] := List.map_eq_nil_iff.1 h.symm
    rfl
  | cons name names ih =>
    cases ws with
    | nil => cases h
    | cons w ws =>
      rw [List.map_cons, List.map_cons, List.cons.injEq] at h
      simp [List.mapM_cons, h.1, ih h.2]

lemma truth?_sign (column : String) (s : Sign) {w : Value}
    (hplain : ∀ name ∈ names, IsPlain name)
    (hbound : names.map bound? = [some w]) :
    truth? bound? owner ⟨column, s.test w⟩ names v = some ((s.test w).holds v) := by
  obtain ⟨name, rfl, hname⟩ := List.map_eq_singleton_iff.1 hbound
  have hread := read?_compared (owner ++ "." ++ column) s (hplain name List.mem_cons_self)
  have htext : Restriction.comparisonText owner ⟨column, s.test w⟩ [name] =
      owner ++ "." ++ column ++ " " ++ s.word ++ " " ++ name := by
    cases s <;> rfl
  rw [truth?, htext, hread, Option.bind_some, holds?, hname]
  rfl

lemma truth?_isNull (column : String) :
    truth? bound? owner ⟨column, .isNull⟩ names v = some (ColumnTest.isNull.holds v) := by
  have hopening : ("IS NULL", .whole .missing) ∈ openings := by simp [openings]
  have htext : " IS NULL".toList = ' ' :: "IS NULL".toList := by simp
  have hread := read?_whole (owner ++ "." ++ column) hopening htext
  exact congrArg (·.bind (holds? bound? v)) hread

lemma truth?_isNotNull (column : String) :
    truth? bound? owner ⟨column, .isNotNull⟩ names v = some (ColumnTest.isNotNull.holds v) := by
  have hopening : ("IS NOT NULL", .whole .present) ∈ openings := by simp [openings]
  have htext : " IS NOT NULL".toList = ' ' :: "IS NOT NULL".toList := by simp
  have hread := read?_whole (owner ++ "." ++ column) hopening htext
  exact congrArg (·.bind (holds? bound? v)) hread

lemma holds?_oneOf {ws : List Value} (hbound : names.map bound? = ws.map some) :
    (oneOf names).holds? bound? v = some ((ColumnTest.isIn ws).holds v) := by
  rw [holds?, mapM_bound? hbound]
  rfl

/-- A cell differs from all values of a list only if it is not null. -/
lemma holds?_noneOf {ws : List Value} (hnames : names ≠ [])
    (hbound : names.map bound? = ws.map some) :
    (noneOf names).holds? bound? v = some ((ColumnTest.notIn ws).holds v) := by
  have hws : ws ≠ [] := by
    rintro rfl
    exact hnames (List.map_eq_nil_iff.1 hbound)
  have hall : (ws.all fun w => (ColumnTest.ne w).holds v) = (ColumnTest.notIn ws).holds v := by
    cases hv : v.isNull with
    | false => simp [ColumnTest.holds, hv]
    | true =>
      obtain ⟨w, ws, rfl⟩ := List.exists_cons_of_ne_nil hws
      simp [ColumnTest.holds, hv, Value.strictCompare?_of_isNull hv]
  rw [holds?, mapM_bound? hbound, ← hall]
  rfl

lemma truth?_isIn {ws : List Value} (column : String) (hnames : names ≠ [])
    (hplain : ∀ name ∈ names, IsPlain name)
    (hbound : names.map bound? = ws.map some) :
    truth? bound? owner ⟨column, .isIn ws⟩ names v = some ((ColumnTest.isIn ws).holds v) := by
  have hopening : ("IN" ++ " (", .listed .oneOf) ∈ openings := by simp [openings]
  have hread := read?_listed (owner ++ "." ++ column) hopening hnames hplain
  rw [← holds?_oneOf hbound]
  exact congrArg (·.bind (holds? bound? v)) hread

lemma truth?_notIn {ws : List Value} (column : String) (hnames : names ≠ [])
    (hplain : ∀ name ∈ names, IsPlain name)
    (hbound : names.map bound? = ws.map some) :
    truth? bound? owner ⟨column, .notIn ws⟩ names v = some ((ColumnTest.notIn ws).holds v) := by
  have hopening : ("NOT IN" ++ " (", .listed .noneOf) ∈ openings := by simp [openings]
  have hread := read?_listed (owner ++ "." ++ column) hopening hnames hplain
  rw [← holds?_noneOf hnames hbound]
  exact congrArg (·.bind (holds? bound? v)) hread

/-- The text of a range says one thing of each bound. -/
lemma truth?_pair {column junction : String} {test : ColumnTest} {s s' : Sign} {start last : Value}
    {join : Clause → Clause → Clause} {op : Bool → Bool → Bool}
    (hjunction : ∀ cs, choice? junctions (' ' :: (junction.toList ++ ' ' :: cs)) = some (join, cs))
    (hjoin : ∀ c d, (join c d).holds? bound? v =
      Option.map₂ op (c.holds? bound? v) (d.holds? bound? v))
    (htext : ∀ name name', Restriction.comparisonText owner ⟨column, test⟩ [name, name'] =
      "(" ++ (owner ++ "." ++ column) ++ " " ++ s.word ++ " " ++ name ++ " " ++ junction ++ " " ++
        (owner ++ "." ++ column) ++ " " ++ s'.word ++ " " ++ name' ++ ")")
    (hplain : ∀ name ∈ names, IsPlain name)
    (hbound : names.map bound? = [some start, some last]) :
    truth? bound? owner ⟨column, test⟩ names v =
      some (op ((s.test start).holds v) ((s'.test last).holds v)) := by
  obtain ⟨name, more, rfl, hname, hmore⟩ := List.map_eq_cons_iff.1 hbound
  obtain ⟨name', rfl, hname'⟩ := List.map_eq_singleton_iff.1 hmore
  have hread := read?_pair (owner ++ "." ++ column) s s' hjunction
    (hplain name List.mem_cons_self) (hplain name' (List.mem_cons_of_mem _ List.mem_cons_self))
  rw [truth?, htext, hread, Option.bind_some, hjoin]
  simp [holds?, hname, hname']

lemma truth?_between {start last : Value} (column : String) (i : Inclusion)
    (hplain : ∀ name ∈ names, IsPlain name)
    (hbound : names.map bound? = [some start, some last]) :
    truth? bound? owner ⟨column, .between start last i⟩ names v =
      some ((i.fromStart.test start).holds v && (i.toEnd.test last).holds v) := by
  have hjunction (cs : List Char) :
      choice? junctions (' ' :: ("AND".toList ++ ' ' :: cs)) = some (both, cs) := by
    simp [choice?, junctions, behind?, List.dropPrefix?]
  refine truth?_pair hjunction (fun _ _ => rfl) (fun name name' => ?_) hplain hbound
  cases i <;> rfl

lemma truth?_notBetween {start last : Value} (column : String) (i : Inclusion)
    (hplain : ∀ name ∈ names, IsPlain name)
    (hbound : names.map bound? = [some start, some last]) :
    truth? bound? owner ⟨column, .notBetween start last i⟩ names v =
      some ((i.beforeStart.test start).holds v || (i.behindEnd.test last).holds v) := by
  have hjunction (cs : List Char) :
      choice? junctions (' ' :: ("OR".toList ++ ' ' :: cs)) = some (either, cs) := by
    simp [choice?, junctions, behind?, List.dropPrefix?]
  refine truth?_pair hjunction (fun _ _ => rfl) (fun name name' => ?_) hplain hbound
  cases i <;> rfl

end Clause

namespace Lowering

variable {ρ : Type} {E : Entity ρ} {used : Nat} {c : ColumnCondition} {r : Restriction}
  {bindings : List Binding}

lemma mem_parameterName {n : Nat} {c : Char} (h : c ∈ (parameterName n).toList) :
    c = ':' ∨ c = 'p' ∨ c.isDigit = true := by
  rw [parameterName, String.toList_append] at h
  rcases List.mem_append.1 h with h | h
  · have hletters : c = ':' ∨ c = 'p' := by simpa using h
    exact hletters.imp_right Or.inl
  · have hdigits : c ∈ Nat.toDigits 10 n := Nat.toList_repr ▸ h
    exact .inr (.inr (Nat.isDigit_of_mem_toDigits (by decide) (by decide) hdigits))

lemma isPlain_parameterName (n : Nat) : Clause.IsPlain (parameterName n) := by
  intro c hc
  rcases mem_parameterName hc with rfl | rfl | hdigit
  · rfl
  · rfl
  · simp only [Clause.isNameChar, Bool.and_eq_true, bne_iff_ne]
    refine ⟨⟨?_, ?_⟩, ?_⟩
    all_goals
      rintro rfl
      cases hdigit

/-- A condition that is lowered has a parameter for each operand, which is bound to it. -/
lemma compare_of_lowerCondition (h : lowerCondition E used c = .ok (r, bindings))
    {bound? : String → Option Value} (hbound : ∀ b ∈ bindings, bound? b.name = some b.value) :
    boundValues c = .ok c.test.operands ∧ ∃ names, r = .compare c names ∧
      names.map bound? = c.test.operands.map some ∧ ∀ name ∈ names, Clause.IsPlain name := by
  rw [lowerCondition] at h
  obtain ⟨u, -, h⟩ := bind_eq_ok h
  obtain ⟨vs, hvs, h⟩ := bind_eq_ok h
  obtain rfl := boundValues_eq hvs
  cases h
  refine ⟨hvs, _, rfl, map_bound?_bind hbound, fun name hname => ?_⟩
  rw [map_name_bind] at hname
  obtain ⟨i, -, rfl⟩ := List.mem_map.1 hname
  exact isPlain_parameterName _

lemma ne_nil_of_boundValues {column : String} {ws vs : List Value}
    (h : boundValues ⟨column, .isIn ws⟩ = .ok vs ∨ boundValues ⟨column, .notIn ws⟩ = .ok vs) :
    ws ≠ [] := by
  rintro rfl
  rcases h with h | h <;> cases h

lemma isNull_of_boundValues {column : String} {start last : Value} {i : Inclusion}
    {vs : List Value} (h : boundValues ⟨column, .between start last i⟩ = .ok vs ∨
      boundValues ⟨column, .notBetween start last i⟩ = .ok vs) :
    start.isNull = false ∧ last.isNull = false := by
  rw [← Bool.or_eq_false_iff]
  cases hnull : start.isNull || last.isNull with
  | false => rfl
  | true => rcases h with h | h <;> simp [boundValues, hnull] at h

/-- The text of a comparison that is no left-out range says what the comparison tests. -/
lemma truth?_eq {bound? : String → Option Value} {owner column : String} {test : ColumnTest}
    {names : List String} {v : Value} (hvalues : boundValues ⟨column, test⟩ = .ok test.operands)
    (hnames : names.map bound? = test.operands.map some)
    (hplain : ∀ name ∈ names, Clause.IsPlain name) (hlike : test.isLike = false)
    (hout : ∀ start last i, test ≠ .notBetween start last i) :
    Clause.truth? bound? owner ⟨column, test⟩ names v = some (test.holds v) := by
  have hnonempty {ws : List Value} (hws : ws ≠ []) (h : names.map bound? = ws.map some) :
      names ≠ [] := by
    rintro rfl
    exact hws (List.map_eq_nil_iff.1 h.symm)
  cases test with
  | eq w => exact Clause.truth?_sign column .eq hplain hnames
  | ne w => exact Clause.truth?_sign column .ne hplain hnames
  | lt w => exact Clause.truth?_sign column .lt hplain hnames
  | lte w => exact Clause.truth?_sign column .lte hplain hnames
  | gt w => exact Clause.truth?_sign column .gt hplain hnames
  | gte w => exact Clause.truth?_sign column .gte hplain hnames
  | isNull => exact Clause.truth?_isNull column
  | isNotNull => exact Clause.truth?_isNotNull column
  | isIn ws =>
    have hws := ne_nil_of_boundValues (Or.inl hvalues)
    exact Clause.truth?_isIn column (hnonempty hws hnames) hplain hnames
  | notIn ws =>
    have hws := ne_nil_of_boundValues (Or.inr hvalues)
    exact Clause.truth?_notIn column (hnonempty hws hnames) hplain hnames
  | startsWith s | endsWith s | contains s => cases hlike
  | between start last i =>
    obtain ⟨hstart, hlast⟩ := isNull_of_boundValues (Or.inl hvalues)
    rw [Clause.truth?_between column i hplain hnames, ColumnTest.holds,
      i.inRange_eq v hstart hlast]
  | notBetween start last i => exact absurd rfl (hout start last i)

/-- The text of a comparison says of a cell what the comparison tests, except that a left-out range
is joined by OR: the text is true and the test fails where the cell compares with one bound only and
lies beyond it. A range says that the cell lies within each bound, and a left-out range that it lies
beyond one of them. -/
theorem printed_comparison_holds (h : lowerCondition E used c = .ok (r, bindings))
    (hlike : c.test.isLike = false) (owner : String) {bound? : String → Option Value}
    (hbound : ∀ b ∈ bindings, bound? b.name = some b.value) (v : Value) :
    let printed := (Clause.read? (owner ++ "." ++ c.column) (r.text owner)).bind
      (Clause.holds? bound? v)
    (¬c.test.IsHalfOut v → printed = some (c.test.holds v)) ∧
      (c.test.IsHalfOut v → c.test.holds v = false ∧ printed = some true) ∧
      (∀ start last i, c.test = .between start last i → printed =
        some ((i.fromStart.test start).holds v && (i.toEnd.test last).holds v)) ∧
      ∀ start last i, c.test = .notBetween start last i → printed =
        some ((i.beforeStart.test start).holds v || (i.behindEnd.test last).holds v) := by
  obtain ⟨hvalues, names, rfl, hnames, hplain⟩ := compare_of_lowerCondition h hbound
  obtain ⟨column, test⟩ := c
  intro printed
  refine ⟨fun hwhole => ?_, ?_, ?_, ?_⟩
  · by_cases hout : ∃ start last i, test = .notBetween start last i
    · obtain ⟨start, last, i, rfl⟩ := hout
      obtain ⟨hstart, hlast⟩ := isNull_of_boundValues (Or.inr hvalues)
      exact (Clause.truth?_notBetween column i hplain hnames).trans
        (congrArg some ((ColumnTest.holds_notBetween i v hstart hlast).1 hwhole).symm)
    · exact truth?_eq hvalues hnames hplain hlike fun start last i htest =>
        hout ⟨start, last, i, htest⟩
  · intro hhalf
    obtain ⟨start, last, i, rfl, -⟩ := id hhalf
    obtain ⟨hstart, hlast⟩ := isNull_of_boundValues (Or.inr hvalues)
    obtain ⟨hfails, hbeyond⟩ := (ColumnTest.holds_notBetween i v hstart hlast).2 hhalf
    exact ⟨hfails, (Clause.truth?_notBetween column i hplain hnames).trans
      (congrArg some hbeyond)⟩
  · rintro start last i rfl
    exact Clause.truth?_between column i hplain hnames
  · rintro start last i rfl
    exact Clause.truth?_notBetween column i hplain hnames

theorem printed_comparison_holds_records :
    let E := Entity.ofColumns "User" "id" ["id", "age"]
    let c : ColumnCondition := ⟨"age", .notBetween (.int 18) (.int 65) .standard⟩
    let bindings := bind 2 [.int 18, .int 65]
    let bound? (name : String) := (bindings.find? fun b => b.name == name).map Binding.value
    let r := Restriction.compare c [":p3", ":p4"]
    lowerCondition E 2 c = .ok (r, bindings) ∧ c.test.isLike = false ∧
      (∀ b ∈ bindings, bound? b.name = some b.value) ∧
      r.text "u" = "(u.age < :p3 OR u.age >= :p4)" ∧
      (Clause.read? "u.age" (r.text "u")).bind (Clause.holds? bound? (.int 65)) =
        some (c.test.holds (.int 65)) := by
  intro E c bindings bound? r
  have h : lowerCondition E 2 c = .ok (r, bindings) := rfl
  have hbound : ∀ b ∈ bindings, bound? b.name = some b.value := by decide
  obtain ⟨hwhole, -⟩ := printed_comparison_holds h rfl "u" hbound (.int 65)
  refine ⟨h, rfl, hbound, by decide, hwhole fun hhalf => ?_⟩
  rcases ColumnTest.isHalfOut_notBetween.1 hhalf with ⟨hnone, -⟩ | ⟨hnone, -⟩
  · revert hnone
    decide
  · revert hnone
    decide

/-- The cell is behind the end of the range and does not compare with its start, so the text is true
of it and the test fails. -/
theorem printed_comparison_of_mixed_bounds :
    let E := Entity.ofColumns "User" "id" ["id", "age"]
    let c : ColumnCondition := ⟨"age", .notBetween (.text "a") (.int 1) .standard⟩
    let bindings := bind 0 [.text "a", .int 1]
    let bound? (name : String) := (bindings.find? fun b => b.name == name).map Binding.value
    let r := Restriction.compare c [":p1", ":p2"]
    lowerCondition E 0 c = .ok (r, bindings) ∧ c.test.isLike = false ∧
      (∀ b ∈ bindings, bound? b.name = some b.value) ∧
      (Clause.read? "u.age" (r.text "u")).bind (Clause.holds? bound? (.int 5)) ≠
        some (c.test.holds (.int 5)) := by
  intro E c bindings bound? r
  exact ⟨rfl, rfl, by decide, by decide⟩

end Lowering
end Pushdown
