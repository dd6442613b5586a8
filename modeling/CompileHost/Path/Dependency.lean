import CompileHost.Text.Scan

/-!
# Modules of dependencies

A file below a `node_modules` directory belongs to a dependency, except the files of the
`typescript` package, which the engine brings along.
-/

namespace CompileHost.Path

open Text

def dependencyMark : List Char := "/node_modules/".toList

/-- Recognises `/node_modules/`, and keeps the text behind it. -/
def belowMark : Recogniser (List Char) := fun _ cs =>
  (stripStart? dependencyMark cs).map fun rest => (rest, dependencyMark.length)

/-- Whether a file belongs to a dependency. -/
def isDependencyModule (path : String) : Bool :=
  (cut belowMark path.toList).any fun
    | .inl _ => false
    | .inr rest => !startsWith rest "typescript/".toList

end CompileHost.Path
