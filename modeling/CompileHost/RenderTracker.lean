import Std.Data.TreeMap

/-!
# What components looked like last

For each component the tracker keeps the render text that it saw last.
-/

namespace CompileHost

structure RenderTracker where
  renders : Std.TreeMap String String

namespace RenderTracker

def empty : RenderTracker := ⟨∅⟩

/-- Keeps a render text. -/
def register (tracker : RenderTracker) (id render : String) : RenderTracker :=
  ⟨tracker.renders.insert id render⟩

/-- Whether a render text differs from the last one; it is the last one from then on. -/
def changed (tracker : RenderTracker) (id render : String) : RenderTracker × Bool :=
  if tracker.renders[id]? = some render then (tracker, false)
  else (tracker.register id render, true)

def size (tracker : RenderTracker) : Nat :=
  tracker.renders.size

end RenderTracker

end CompileHost
