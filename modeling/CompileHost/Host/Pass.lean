import CompileHost.Host.Answer
import CompileHost.Host.Error

/-!
# Passes

A pass starts a generation, adds the roots, and lets the engine compile them.  Engines that need
every module of a dependency as a root compile twice: once to find these modules, and once, with
them as further roots, to emit code.  A pass fails if an error is reported in it; what was emitted
before stays.
-/

namespace CompileHost

/-- What comes of a pass that does not fail. -/
structure PassSummary where
  generation : Nat
  roots : List CanonicalPath
  dependencies : List CanonicalPath
  diagnostics : Diagnostics
  deriving DecidableEq

/-- One call of the engine: what it was given, and the notes that it left. -/
structure Phase (N : Type) where
  mode : CompileMode
  roots : List String
  notes : N

/-- A pass that is over: its result and the calls of the engine. -/
structure PassOutcome (N : Type) where
  result : Except HostError PassSummary
  phases : List (Phase N)

namespace Host

variable {P N : Type}

/-- Adds files as roots. -/
def addRoots (h : Host P N) (w : World) (names : List String) : Host P N :=
  names.foldl (fun h name => (h.addFile w name true).1) h

/-- Lets the engine compile, and takes note of the diagnostics that it hands back. -/
def compile (h : Host P N) (w : World) (roots : List String) (mode : CompileMode) :
    Host P N × Phase N :=
  let (after, outcome) := (h.engine.compile roots mode).run (answer w) h
  (after.reportAll outcome.diagnostics, ⟨mode, roots, outcome.notes⟩)

/-- The result of a pass that has come to its end. -/
def passResult (h : Host P N) (roots dependencies : List CanonicalPath) :
    Except HostError PassSummary :=
  if h.failed then .error (.buildFailed h.diagnostics)
  else .ok ⟨h.cache.generation, roots, dependencies, h.diagnostics⟩

/-- One pass over the roots. -/
def runCompile (h : Host P N) (w : World) : Host P N × PassOutcome N :=
  let h := h.reset.addRoots w h.roots
  let roots := h.rootFiles
  let names := roots.map (·.text)
  if h.twoPhase then
    let (h, discovery) := h.compile w names .discover
    let dependencies := h.dependencyModules
    let (h, emission) := h.compile w (names ++ dependencies.map (·.text)) .emit
    (h, ⟨h.passResult roots dependencies, [discovery, emission]⟩)
  else
    let (h, emission) := h.compile w names .emit
    (h, ⟨h.passResult roots [], [emission]⟩)

end Host

end CompileHost
