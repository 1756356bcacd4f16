import Mathlib.Data.List.Infix
import Pushdown.Proofs.Lowering

/-!
# LIKE patterns

What LIKE with the escape character `\` makes of a pattern, and of the patterns that a test of text
binds: each of them accepts just the texts that begin with, end with or contain the given one, as
it stands. An escaped text reads as its own characters, so no wildcard is left in it, and no
backslash at its end can reach for what follows.
-/

namespace Pushdown
namespace Like

/-- A pattern is read as runs of any characters, single characters of any kind, and characters that
stand for themselves. -/
inductive Token
  | run
  | one
  | literal (c : Char)
deriving DecidableEq

/-- Reads a pattern. A backslash takes the next character literally, so it cannot be the last. -/
def tokens? : List Char → Option (List Token)
  | [] => some []
  | ['\\'] => none
  | '\\' :: c :: cs => (tokens? cs).map (.literal c :: ·)
  | '%' :: cs => (tokens? cs).map (.run :: ·)
  | '_' :: cs => (tokens? cs).map (.one :: ·)
  | c :: cs => (tokens? cs).map (.literal c :: ·)

/-- Does the whole text match? A run tries all that is behind it at every place. -/
def matchesAll : List Token → List Char → Bool
  | [], text => text.isEmpty
  | .run :: tokens, text => text.tails.any fun rest => matchesAll tokens rest
  | .one :: tokens, _ :: text => matchesAll tokens text
  | .literal c :: tokens, d :: text => c == d && matchesAll tokens text
  | _ :: _, [] => false

/-- `text LIKE pattern ESCAPE '\'`. A pattern that ends in a bare backslash accepts nothing. -/
def accepts (pattern text : String) : Bool :=
  (tokens? pattern.toList).any fun tokens => matchesAll tokens text.toList

lemma toList_escape (s : String) : (escape s).toList = escapeChars s.toList := String.toList_ofList

lemma tokens?_cons_of_not_isSpecial {c : Char} (h : isSpecial c = false) (cs : List Char) :
    tokens? (c :: cs) = (tokens? cs).map (.literal c :: ·) := by
  simp only [isSpecial, Bool.or_eq_false_iff, decide_eq_false_iff_not] at h
  obtain ⟨⟨hescape, hrun⟩, hone⟩ := h
  rw [tokens?]
  · rintro rfl
    exact absurd rfl hescape
  · rintro d ds rfl
    exact absurd rfl hescape
  · exact hrun
  · exact hone

/-- An escaped text reads as its own characters, whatever comes behind it. -/
lemma tokens?_escapeChars_append (s pattern : List Char) :
    tokens? (escapeChars s ++ pattern) =
      (tokens? pattern).map (s.map Token.literal ++ ·) := by
  induction s with
  | nil => simp [escapeChars]
  | cons c s ih =>
    rw [escapeChars]
    cases hspecial : isSpecial c with
    | true =>
      rw [if_pos rfl, List.cons_append, List.cons_append, tokens?, ih, Option.map_map]
      rfl
    | false =>
      rw [if_neg Bool.false_ne_true, List.cons_append, tokens?_cons_of_not_isSpecial hspecial, ih,
        Option.map_map]
      rfl

lemma matchesAll_run_iff {tokens : List Token} {text : List Char} :
    matchesAll (.run :: tokens) text = true ↔
      ∃ rest, rest <:+ text ∧ matchesAll tokens rest = true := by
  simp [matchesAll, List.mem_tails]

lemma matchesAll_literals_iff {s : List Char} {tokens : List Token} {text : List Char} :
    matchesAll (s.map .literal ++ tokens) text = true ↔
      ∃ rest, text = s ++ rest ∧ matchesAll tokens rest = true := by
  induction s generalizing text with
  | nil => simp
  | cons c s ih =>
    cases text with
    | nil => simp [matchesAll]
    | cons d text =>
      rw [List.map_cons, List.cons_append, matchesAll, Bool.and_eq_true, beq_iff_eq, ih]
      constructor
      · rintro ⟨rfl, rest, rfl, hrest⟩
        exact ⟨rest, rfl, hrest⟩
      · rintro ⟨rest, htext, hrest⟩
        obtain ⟨rfl, rfl⟩ := List.cons.inj htext
        exact ⟨rfl, rest, rfl, hrest⟩

/-- A run at the end takes whatever is left. -/
lemma matchesAll_run (text : List Char) : matchesAll [.run] text = true :=
  matchesAll_run_iff.2 ⟨[], List.nil_suffix, rfl⟩

theorem accepts_startingWith_iff {s text : String} :
    accepts (startingWith s) text = true ↔ s.toList <+: text.toList := by
  have htokens : tokens? (startingWith s).toList = some (s.toList.map .literal ++ [.run]) := by
    rw [startingWith, String.toList_append, toList_escape, tokens?_escapeChars_append]
    rfl
  rw [accepts, htokens, Option.any_some, matchesAll_literals_iff]
  constructor
  · rintro ⟨rest, htext, -⟩
    exact ⟨rest, htext.symm⟩
  · rintro ⟨rest, htext⟩
    exact ⟨rest, htext.symm, matchesAll_run rest⟩

theorem accepts_endingWith_iff {s text : String} :
    accepts (endingWith s) text = true ↔ s.toList <:+ text.toList := by
  have hliterals := tokens?_escapeChars_append s.toList []
  rw [List.append_nil] at hliterals
  have htokens : tokens? (endingWith s).toList = some (.run :: s.toList.map .literal) := by
    rw [endingWith, String.toList_append, toList_escape]
    change tokens? ('%' :: escapeChars s.toList) = _
    rw [tokens?, hliterals]
    simp [tokens?]
  have hliterals_iff (rest : List Char) :
      matchesAll (s.toList.map .literal) rest = true ↔ rest = s.toList := by
    have hiff : matchesAll (s.toList.map .literal ++ []) rest = true ↔ _ := matchesAll_literals_iff
    simpa [matchesAll] using hiff
  rw [accepts, htokens, Option.any_some, matchesAll_run_iff]
  constructor
  · rintro ⟨rest, hsuffix, hrest⟩
    rwa [← (hliterals_iff rest).1 hrest]
  · exact fun hsuffix => ⟨s.toList, hsuffix, (hliterals_iff _).2 rfl⟩

theorem accepts_containing_iff {s text : String} :
    accepts (containing s) text = true ↔ s.toList <:+: text.toList := by
  have htokens : tokens? (containing s).toList =
      some (.run :: (s.toList.map .literal ++ [.run])) := by
    rw [containing, String.toList_append, String.toList_append, toList_escape]
    change tokens? ('%' :: (escapeChars s.toList ++ ['%'])) = _
    rw [tokens?, tokens?_escapeChars_append]
    rfl
  rw [accepts, htokens, Option.any_some, matchesAll_run_iff, List.infix_iff_prefix_suffix]
  constructor
  · rintro ⟨rest, hsuffix, hrest⟩
    obtain ⟨more, hprefix, -⟩ := matchesAll_literals_iff.1 hrest
    exact ⟨rest, ⟨more, hprefix.symm⟩, hsuffix⟩
  · rintro ⟨rest, ⟨more, hprefix⟩, hsuffix⟩
    exact ⟨rest, hsuffix, matchesAll_literals_iff.2 ⟨more, hprefix.symm, matchesAll_run more⟩⟩

example : accepts (containing "a_") "xa_y" = true ∧ accepts (containing "a_") "ab" = false := by
  decide

end Like

/-- The run of characters is found wherever it occurs. -/
lemma containsRun_iff_infix {α : Type} [BEq α] [LawfulBEq α] {run cs : List α} :
    containsRun run cs = true ↔ run <:+: cs := by
  induction cs with
  | nil => simp [containsRun]
  | cons c cs ih =>
    rw [containsRun, Bool.or_eq_true, ih, List.isPrefixOf_iff_prefix, List.infix_cons_iff]

namespace Lowering

variable {ρ : Type}

/-- Lowering binds one pattern for a test of text. LIKE accepts by it the texts in `accepted`, and
no others, and these are the texts of which the test holds. -/
def BindsPatternOf (E : Entity ρ) (used : Nat) (c : ColumnCondition) (accepted : String → Prop) :
    Prop :=
  ∃ r name pattern, lowerCondition E used c = .ok (r, [⟨name, .text pattern⟩]) ∧
    ∀ text, (Like.accepts pattern text = true ↔ accepted text) ∧
      (Like.accepts pattern text = true ↔ c.test.holds (.text text) = true)

lemma bindsPatternOf {E : Entity ρ} {c : ColumnCondition} {pattern : String}
    {accepted : String → Prop} (hcolumn : E.hasColumn c.column = true)
    (hvalues : boundValues c = .ok [.text pattern]) (used : Nat)
    (haccepts : ∀ text, Like.accepts pattern text = true ↔ accepted text)
    (hholds : ∀ text, c.test.holds (.text text) = true ↔ accepted text) :
    BindsPatternOf E used c accepted := by
  refine ⟨.compare c [parameterName (used + 1)], parameterName (used + 1), pattern, ?_,
    fun text => ⟨haccepts text, (haccepts text).trans (hholds text).symm⟩⟩
  rw [lowerCondition, checkColumn, if_pos hcolumn, hvalues]
  rfl

/-- The pattern that a query binds for a test of text accepts the texts that begin with, end with or
contain the given one, whatever characters it has, and no others. -/
theorem patterns_accept_literally {E : Entity ρ} {column : String}
    (hcolumn : E.hasColumn column = true) (used : Nat) (s : String) :
    BindsPatternOf E used ⟨column, .startsWith s⟩ (fun text => s.toList <+: text.toList) ∧
      BindsPatternOf E used ⟨column, .endsWith s⟩ (fun text => s.toList <:+ text.toList) ∧
      BindsPatternOf E used ⟨column, .contains s⟩ (fun text => s.toList <:+: text.toList) := by
  refine ⟨bindsPatternOf hcolumn rfl used (fun _ => Like.accepts_startingWith_iff) fun text => ?_,
    bindsPatternOf hcolumn rfl used (fun _ => Like.accepts_endingWith_iff) fun text => ?_,
    bindsPatternOf hcolumn rfl used (fun _ => Like.accepts_containing_iff) fun text => ?_⟩
  · exact List.isPrefixOf_iff_prefix
  · exact List.isSuffixOf_iff_suffix
  · exact containsRun_iff_infix

theorem patterns_accept_literally_records :
    let E := Entity.ofColumns "User" "id" ["id", "name"]
    let s := "5%\\_"
    E.hasColumn "name" = true ∧
      BindsPatternOf E 2 ⟨"name", .startsWith s⟩ (fun text => s.toList <+: text.toList) ∧
      BindsPatternOf E 2 ⟨"name", .endsWith s⟩ (fun text => s.toList <:+ text.toList) ∧
      BindsPatternOf E 2 ⟨"name", .contains s⟩ (fun text => s.toList <:+: text.toList) :=
  ⟨by decide, patterns_accept_literally (by decide) 2 _⟩

end Lowering
end Pushdown
