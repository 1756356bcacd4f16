/-! # Closures

A closure is a function supplied by a caller. It has no text and no structure, so two closures
count as equal exactly if they are the same one, which their identity tells.
-/

namespace Pushdown

/-- A function with an identity. -/
structure Closure (φ : Type) where
  identity : Nat
  fn : φ

def Closure.same {φ : Type} (f g : Closure φ) : Bool := f.identity == g.identity

end Pushdown
