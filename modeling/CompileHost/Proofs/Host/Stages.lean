import CompileHost.Proofs.Host.Sources

/-!
# The stages of a pass

A pass adds the roots, lets engines that need it find the modules of dependencies, and then has the
program emitted.  With the second stage left empty where nothing has to be found, passes of one and
of two phases read alike (`runCompile_eq`).
-/

namespace CompileHost

/-- The result of a pass but for the number of its generation: the error, or the roots, the modules
of dependencies and the diagnostics. -/
def PassOutcome.verdict {N : Type} (o : PassOutcome N) :
    Except HostError (List CanonicalPath × List CanonicalPath × Diagnostics) :=
  o.result.map fun s => (s.roots, s.dependencies, s.diagnostics)

namespace Host

variable {P N : Type}

/-- The host with all roots added. -/
def rooted (h : Host P N) (w : World) : Host P N :=
  h.reset.addRoots w h.roots

/-- What the engine is given in the first phase. -/
def rootNames (h : Host P N) (w : World) : List String :=
  (h.rooted w).rootFiles.map (·.text)

/-- The host before the program is emitted. -/
def discovered (h : Host P N) (w : World) : Host P N :=
  if h.twoPhase then ((h.rooted w).compile w (h.rootNames w) .discover).1 else h.rooted w

/-- The modules of dependencies that become roots. -/
def foundModules (h : Host P N) (w : World) : List CanonicalPath :=
  if h.twoPhase then (h.discovered w).dependencyModules else []

/-- What the engine is given to emit. -/
def emissionNames (h : Host P N) (w : World) : List String :=
  h.rootNames w ++ (h.foundModules w).map (·.text)

/-- The call of the engine that finds dependencies, if there is one. -/
def discoveryPhase (h : Host P N) (w : World) : List (Phase N) :=
  if h.twoPhase then [((h.rooted w).compile w (h.rootNames w) .discover).2] else []

@[simp]
theorem bare_rooted (h : Host P N) (w : World) : (h.rooted w).bare = h.bare := by
  simp [rooted]

theorem twoPhase_rooted (h : Host P N) (w : World) : (h.rooted w).twoPhase = h.twoPhase :=
  show (h.rooted w).bare.twoPhase = h.bare.twoPhase by rw [bare_rooted]

@[simp]
theorem bare_discovered (h : Host P N) (w : World) : (h.discovered w).bare = h.bare := by
  unfold discovered
  split <;> simp

theorem runCompile_eq (h : Host P N) (w : World) :
    h.runCompile w =
      let emission := (h.discovered w).compile w (h.emissionNames w) .emit
      (emission.1, ⟨emission.1.passResult (h.rooted w).rootFiles (h.foundModules w),
        h.discoveryPhase w ++ [emission.2]⟩) := by
  have hPhase := h.twoPhase_rooted w
  simp only [rooted] at hPhase
  unfold runCompile emissionNames foundModules discoveryPhase discovered rootNames rooted
  dsimp only
  rw [hPhase]
  cases h.twoPhase with
  | true => rfl
  | false => simp

theorem runCompile_fst (h : Host P N) (w : World) :
    (h.runCompile w).1 = ((h.discovered w).compile w (h.emissionNames w) .emit).1 := by
  rw [runCompile_eq]

/-! ## What is asked and replied -/

/-- The questions and replies of one call of the engine. -/
def exchanges (h : Host P N) (w : World) (roots : List String) (mode : CompileMode) :
    List (Exchange P) :=
  (h.engine.compile roots mode).transcript (answer w) h

/-- The questions and replies of a pass, phase by phase. -/
def passExchanges (h : Host P N) (w : World) : List (List (Exchange P)) :=
  (if h.twoPhase then [(h.rooted w).exchanges w (h.rootNames w) .discover] else []) ++
    [(h.discovered w).exchanges w (h.emissionNames w) .emit]

end Host

end CompileHost
