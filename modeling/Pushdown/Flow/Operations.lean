import Pushdown.Flow.Basic
import Std.Data.HashSet

/-! # Operations on flows

Each operation answers a pull with as few pulls of the flow before it as the answer takes. On
`Pulled` it says what becomes of a pull; on `Flow` it waits for one.
-/

namespace Pushdown

namespace Pulled

variable {ρ : Type}

/-- The steps up to the row that `n` others precede; all steps if there are fewer rows. -/
def takeSucc : Nat → Pulled ρ → Pulled ρ
  | _, ended => ended
  | n, step (.visit v) rest => step (.visit v) fun _ => takeSucc n (rest ())
  | 0, step (.row r) _ => step (.row r) fun _ => ended
  | n + 1, step (.row r) rest => step (.row r) fun _ => takeSucc n (rest ())

/-- The flow behind the row that `n` others precede. -/
def restSucc : Nat → Pulled ρ → Flow ρ
  | _, ended => .empty
  | n, step (.visit _) rest => restSucc n (rest ())
  | 0, step (.row _) rest => ⟨rest⟩
  | n + 1, step (.row _) rest => restSucc n (rest ())

/-- The steps up to the first row with `p`; all steps if there is none. -/
def upTo (p : ρ → Bool) : Pulled ρ → Pulled ρ
  | ended => ended
  | step (.visit v) rest => step (.visit v) fun _ => upTo p (rest ())
  | step (.row r) rest => step (.row r) fun _ => if p r then ended else upTo p (rest ())

/-- Withholds the first `n` rows; their visits still happen. -/
def drop : Nat → Pulled ρ → Pulled ρ
  | _, ended => ended
  | n, step (.visit v) rest => step (.visit v) fun _ => drop n (rest ())
  | 0, step (.row r) rest => step (.row r) rest
  | n + 1, step (.row _) rest => drop n (rest ())

def filter (p : ρ → Bool) : Pulled ρ → Pulled ρ
  | ended => ended
  | step (.visit v) rest => step (.visit v) fun _ => filter p (rest ())
  | step (.row r) rest =>
    if p r then step (.row r) fun _ => filter p (rest ()) else filter p (rest ())

def map (f : ρ → ρ) : Pulled ρ → Pulled ρ
  | ended => ended
  | step (.visit v) rest => step (.visit v) fun _ => map f (rest ())
  | step (.row r) rest => step (.row (f r)) fun _ => map f (rest ())

def flatMap (f : ρ → List ρ) : Pulled ρ → Pulled ρ
  | ended => ended
  | step (.visit v) rest => step (.visit v) fun _ => flatMap f (rest ())
  | step (.row r) rest =>
    match f r with
    | [] => flatMap f (rest ())
    | a :: as => step (.row a) fun _ => prepend (as.map .row) fun _ => flatMap f (rest ())

/-- Lets `o` visit each row right before it is handed out. -/
def observe (o : Observer) : Pulled ρ → Pulled ρ
  | ended => ended
  | step (.visit v) rest => step (.visit v) fun _ => observe o (rest ())
  | step (.row r) rest =>
    step (.visit ⟨o, r⟩) fun _ => step (.row r) fun _ => observe o (rest ())

/-- Ends at the first row without `p`, which is pulled and withheld. -/
def takeWhile (p : ρ → Bool) : Pulled ρ → Pulled ρ
  | ended => ended
  | step (.visit v) rest => step (.visit v) fun _ => takeWhile p (rest ())
  | step (.row r) rest => if p r then step (.row r) fun _ => takeWhile p (rest ()) else ended

/-- Withholds the rows before the first one without `p`. -/
def dropWhile (p : ρ → Bool) : Pulled ρ → Pulled ρ
  | ended => ended
  | step (.visit v) rest => step (.visit v) fun _ => dropWhile p (rest ())
  | step (.row r) rest => if p r then dropWhile p (rest ()) else step (.row r) rest

/-- Hands out the first row of each key; `seen` are the keys that came before. -/
def distinctFrom {κ : Type} [BEq κ] [Hashable κ] (key : ρ → κ) :
    Std.HashSet κ → Pulled ρ → Pulled ρ
  | _, ended => ended
  | seen, step (.visit v) rest => step (.visit v) fun _ => distinctFrom key seen (rest ())
  | seen, step (.row r) rest =>
    if seen.contains (key r) then distinctFrom key seen (rest ())
    else step (.row r) fun _ => distinctFrom key (seen.insert (key r)) (rest ())

/-- Pulls everything before it hands out the first row of the rearranged whole. -/
def rearrange (f : List ρ → List ρ) (p : Pulled ρ) : Pulled ρ :=
  let ss := p.steps
  prepend ((ss.filterMap Step.visit?).map .visit) fun _ =>
    prepend ((f (ss.filterMap Step.row?)).map .row) fun _ => ended

end Pulled

namespace Flow

variable {ρ : Type}

/-- Answers each pull with what `g` makes of it. -/
def through (g : Pulled ρ → Pulled ρ) (flow : Flow ρ) : Flow ρ := ⟨fun _ => g (flow.pull ())⟩

/-- The steps up to the `n`-th row; all steps if there are fewer rows. -/
def take : Nat → Flow ρ → Flow ρ
  | 0, _ => empty
  | n + 1, flow => flow.through (.takeSucc n)

/-- The steps behind the `n`-th row. -/
def rest : Nat → Flow ρ → Flow ρ
  | 0, flow => flow
  | n + 1, flow => (flow.pull ()).restSucc n

def upTo (p : ρ → Bool) : Flow ρ → Flow ρ := through (.upTo p)

def drop (n : Nat) : Flow ρ → Flow ρ := through (.drop n)

def filter (p : ρ → Bool) : Flow ρ → Flow ρ := through (.filter p)

def map (f : ρ → ρ) : Flow ρ → Flow ρ := through (.map f)

def flatMap (f : ρ → List ρ) : Flow ρ → Flow ρ := through (.flatMap f)

def observe (o : Observer) : Flow ρ → Flow ρ := through (.observe o)

def takeWhile (p : ρ → Bool) : Flow ρ → Flow ρ := through (.takeWhile p)

def dropWhile (p : ρ → Bool) : Flow ρ → Flow ρ := through (.dropWhile p)

def distinct {κ : Type} [BEq κ] [Hashable κ] (key : ρ → κ) : Flow ρ → Flow ρ :=
  through (.distinctFrom key ∅)

def rearrange (f : List ρ → List ρ) : Flow ρ → Flow ρ := through (.rearrange f)

end Flow
end Pushdown
