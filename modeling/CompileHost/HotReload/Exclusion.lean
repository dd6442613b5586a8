import CompileHost.Glob.Collection
import CompileHost.Path.Lexical

/-!
# Names that are left out

A name is left out if a glob matches it.  A glob without a slash has to match the last segment of
the name only, and one with a slash the whole name, segment by segment.
-/

namespace CompileHost

structure Exclusion where
  lastSegment : GlobCollection
  wholeName : GlobCollection

namespace Exclusion

/-- The glob of a pattern; it respects segments if the pattern has some. -/
def readPattern (pattern : String) : Except Glob.Error Glob :=
  match Glob.parse (pattern.toList.contains '/') pattern with
  | .ok g => .ok g
  | .error fault => .error (.malformed pattern fault)

/-- The exclusion by some patterns; the first one that is no glob is the error. -/
def of (patterns : List String) : Except Glob.Error Exclusion := do
  let globs ← patterns.mapM readPattern
  let lastSegment ← GlobCollection.of (globs.filter fun g => !g.separated)
  let wholeName ← GlobCollection.of (globs.filter (·.separated))
  return ⟨lastSegment, wholeName⟩

def isMatch (e : Exclusion) (name : String) : Bool :=
  let name := Path.slashes name
  let last := String.ofList ((Text.splitAt '/' name.toList).getLastD [])
  e.lastSegment.isMatch last || e.wholeName.isMatch name

end Exclusion

end CompileHost
