/-! # Runs of characters

Runs of characters inside a text, lists of texts set between separators, and the words for truth
values.
-/

namespace Pushdown

/-- Does `run` occur in `cs` as consecutive elements? -/
def containsRun {α : Type} [BEq α] (run : List α) : List α → Bool
  | [] => run.isEmpty
  | c :: cs => run.isPrefixOf (c :: cs) || containsRun run cs

def Text.startsWith (t s : String) : Bool := s.toList.isPrefixOf t.toList

def Text.endsWith (t s : String) : Bool := s.toList.isSuffixOf t.toList

def Text.contains (t s : String) : Bool := containsRun s.toList t.toList

def joined (separator : String) : List String → String
  | [] => ""
  | [s] => s
  | s :: t :: rest => s ++ separator ++ joined separator (t :: rest)

def truthWord (b : Bool) : String := if b then "true" else "false"

def commaList (parts : List String) : String := joined ", " parts

end Pushdown
