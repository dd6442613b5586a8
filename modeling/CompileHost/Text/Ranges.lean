/-!
# Tables over code points

A property of characters is given by closed ranges of code points in ascending order, and a map
of characters by runs that it shifts as a whole.
-/

namespace CompileHost.Text

/-- Closed ranges `(first, last)`, in ascending order. -/
abbrev Ranges := List (Nat × Nat)

/-- Whether a code point lies in one of the ranges. -/
def Ranges.has : Ranges → Nat → Bool
  | [], _ => false
  | (first, last) :: rest, n => if n < first then false else n ≤ last || Ranges.has rest n

/-- Runs `(first, last, step, image of first)`: every `step`-th code point from `first` to `last`
is moved by the same distance as `first`. -/
abbrev Runs := List (Nat × Nat × Nat × Nat)

/-- The image of a code point, itself outside all runs. -/
def Runs.image : Runs → Nat → Nat
  | [], n => n
  | (first, last, step, target) :: rest, n =>
    if n < first then n
    else if n ≤ last ∧ (n - first) % step = 0 then target + (n - first)
    else Runs.image rest n

def Runs.apply (runs : Runs) (c : Char) : Char :=
  Char.ofNat (runs.image c.toNat)

end CompileHost.Text
