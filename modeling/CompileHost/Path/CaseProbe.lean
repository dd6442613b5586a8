import CompileHost.FileTree.Basic
import CompileHost.Text.Case

/-!
# Does case count?

A directory is looked up under its name with the case of every letter turned over.  If that name
exists as well, case does not count.
-/

namespace CompileHost

/-- A guess whether the names around a directory differ by case. -/
def FileTree.distinguishesCase (t : FileTree) (directory : String) : Bool :=
  let turned := String.ofList (directory.toList.map Text.swapCase)
  turned = directory || !t.exists? turned

end CompileHost
