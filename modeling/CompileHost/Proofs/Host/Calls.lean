import CompileHost.Host.Build
import CompileHost.Proofs.Host.Stages

/-!
# The life of a host

A host is built, and then called in any order: by its user, who starts generations and passes and
adds files, and by the engine, which asks its questions.  Each call meets the world as it is at
that time, so the file tree may change from call to call.

* `isFresh_build`: a host that has just been built knows no source.
* `Sound.performAll`: the cache of a fresh host is sound, and stays so whatever the calls.
* `runCompile_fst_eq_performAll`: a pass is a reset and then the calls that are made in its course.
-/

namespace CompileHost

theorem ArtifactProcessor.of_build {w : World} {s : Settings} {directory : String}
    {tools : MarkupTools} {a : ArtifactProcessor}
    (hBuild : ArtifactProcessor.build w s directory tools = .ok a) :
    a.tracker = .empty ∧ ∀ reloader, a.hotReload = some reloader → ∃ directory,
      HotReloader.of w.tree directory s.runtime s.hotReloadExcluded = .ok reloader := by
  simp only [ArtifactProcessor.build, bind, Except.bind, pure, Except.pure] at hBuild
  by_cases hOn : s.hotReload = true
  · rw [if_pos hOn] at hBuild
    cases hReloader : HotReloader.of w.tree directory s.runtime s.hotReloadExcluded with
    | error e =>
      rw [hReloader] at hBuild
      cases hBuild
    | ok reloader =>
      rw [hReloader] at hBuild
      cases hOptions : Markup.Options.override s.markupOverrides with
      | error e =>
        rw [hOptions] at hBuild
        cases hBuild
      | ok options =>
        rw [hOptions] at hBuild
        cases hBuild
        exact ⟨rfl, fun other hOther => ⟨directory, Option.some.inj hOther ▸ hReloader⟩⟩
  · rw [if_neg hOn] at hBuild
    cases hOptions : Markup.Options.override s.markupOverrides with
    | error e =>
      rw [hOptions] at hBuild
      cases hBuild
    | ok options =>
      rw [hOptions] at hBuild
      cases hBuild
      exact ⟨rfl, fun other hOther => nomatch hOther⟩

namespace Host

variable {P N : Type}

/-- A call to a host, with the world that it meets. -/
inductive Call (P : Type) where
  | reset
  | setRoots (roots : List String)
  | setDefaultLibrary (value : P)
  | onFile (observer : String)
  | addFile (w : World) (name : String) (isRoot : Bool)
  | resolveFile (w : World) (name : String)
  | ask (w : World) (q : Query)
  | renderChanged (name render : String)
  | runCompile (w : World)

/-- The host behind a call. -/
def perform (h : Host P N) : Call P → Host P N
  | .reset => h.reset
  | .setRoots roots => h.setRoots roots
  | .setDefaultLibrary value => h.setDefaultLibrary value
  | .onFile observer => h.onFile observer
  | .addFile w name isRoot => (h.addFile w name isRoot).1
  | .resolveFile w name => (h.resolveFile w name).1
  | .ask w q => (answer w h q).1
  | .renderChanged name render => (h.renderChanged name render).1
  | .runCompile w => (h.runCompile w).1

/-- The host behind several calls, in order. -/
def performAll (h : Host P N) (calls : List (Call P)) : Host P N :=
  calls.foldl perform h

/-- No source has been added yet. -/
def IsFresh (h : Host P N) : Prop :=
  ∀ path, h.cache.get? path = none ∧ h.cache.getPrevious? path = none

/-- Observers do not change what is recorded. -/
theorem get?_foldl_subscribe (observers : List String) (cache : SourceCache P)
    (path : CanonicalPath) :
    (observers.foldl SourceCache.subscribe cache).get? path = cache.get? path ∧
      (observers.foldl SourceCache.subscribe cache).getPrevious? path =
        cache.getPrevious? path := by
  induction observers generalizing cache with
  | nil => exact ⟨rfl, rfl⟩
  | cons observer observers ih => exact ih (cache.subscribe observer)

/-- What a host is built with. -/
theorem of_build {w : World} {s : Settings} {engine : Engine P N} {roots observers : List String}
    {tools : MarkupTools} {h : Host P N}
    (hBuild : Host.build w s engine roots observers tools = .ok h) :
    h.cache = observers.foldl SourceCache.subscribe .empty ∧
      ∃ directory caseSensitive, h.layout =
        .of (.of (FileTree.placePath w.tree.workingDirectory).text directory caseSensitive)
          s.sourceDirectory s.outputDirectory := by
  simp only [Host.build, bind, Except.bind, pure, Except.pure] at hBuild
  split at hBuild
  · split at hBuild
    · cases hBuild
    · cases hBuild
      exact ⟨rfl, _, _, rfl⟩
  · cases hBuild

theorem isFresh_build {w : World} {s : Settings} {engine : Engine P N}
    {roots observers : List String} {tools : MarkupTools} {h : Host P N}
    (hBuild : Host.build w s engine roots observers tools = .ok h) : h.IsFresh := by
  intro path
  obtain ⟨hGet, hPrevious⟩ := get?_foldl_subscribe observers (.empty : SourceCache P) path
  rw [(of_build hBuild).1, hGet, hPrevious]
  simp [SourceCache.get?, SourceCache.getPrevious?, SourceCache.empty]

/-- What the processor of a host is built with. -/
theorem processor_of_build {w : World} {s : Settings} {engine : Engine P N}
    {roots observers : List String} {tools : MarkupTools} {h : Host P N}
    (hBuild : Host.build w s engine roots observers tools = .ok h) :
    h.processor.tracker = .empty ∧
      ∀ reloader, h.processor.hotReload = some reloader → ∃ directory,
        HotReloader.of w.tree directory s.runtime s.hotReloadExcluded = .ok reloader := by
  simp only [Host.build, bind, Except.bind, pure, Except.pure] at hBuild
  split at hBuild
  · rename_i directory _
    split at hBuild
    · cases hBuild
    · rename_i processor hProcessor
      cases hBuild
      exact ArtifactProcessor.of_build hProcessor
  · cases hBuild

/-! ## Soundness over the whole life -/

theorem IsFresh.sound {h : Host P N} (hFresh : h.IsFresh) : h.Sound := by
  intro path source hSource
  rw [(hFresh path).1, (hFresh path).2] at hSource
  rcases hSource with hNone | hNone <;> cases hNone

theorem Sound.perform {h : Host P N} (hSound : h.Sound) (call : Call P) :
    (h.perform call).Sound := by
  cases call with
  | reset => exact hSound.reset
  | setRoots roots => exact hSound
  | setDefaultLibrary value => exact hSound
  | onFile observer => exact hSound
  | addFile w name isRoot => exact hSound.addFile w name isRoot
  | resolveFile w name => exact hSound.resolveFile w name
  | ask w q => exact hSound.answer w q
  | renderChanged name render => exact hSound
  | runCompile w => exact hSound.runCompile w

/-- Whatever is done with a host, each record is what the host would parse. -/
theorem Sound.performAll {h : Host P N} (hSound : h.Sound) (calls : List (Call P)) :
    (h.performAll calls).Sound := by
  induction calls generalizing h with
  | nil => exact hSound
  | cons call calls ih => exact ih (hSound.perform call)

/-! ## The calls of a pass -/

theorem performAll_append (h : Host P N) (earlier later : List (Call P)) :
    h.performAll (earlier ++ later) = (h.performAll earlier).performAll later :=
  List.foldl_append

/-- The host behind a conversation is the host behind its questions. -/
theorem run_fst_eq_performAll {α : Type} (talk : Talk P α) (w : World) (h : Host P N) :
    (talk.run (answer w) h).1 =
      h.performAll ((talk.transcript (answer w) h).map fun exchange => .ask w exchange.1) := by
  induction talk generalizing h with
  | done result => rfl
  | ask q next ih => exact ih _ _

theorem reportAll_eq_performAll (h : Host P N) (w : World) (ds : Diagnostics) :
    h.reportAll ds = h.performAll (ds.map fun d => .ask w (.report d)) := by
  rw [performAll, List.foldl_map]
  rfl

/-- The calls that one call of the engine makes: its questions, and the report of the diagnostics
that it hands back. -/
def compileCalls (h : Host P N) (w : World) (roots : List String) (mode : CompileMode) :
    List (Call P) :=
  (h.exchanges w roots mode).map (fun exchange => .ask w exchange.1) ++
    ((h.engine.compile roots mode).run (answer w) h).2.diagnostics.map fun d => .ask w (.report d)

theorem compile_fst_eq_performAll (h : Host P N) (w : World) (roots : List String)
    (mode : CompileMode) :
    (h.compile w roots mode).1 = h.performAll (h.compileCalls w roots mode) := by
  rw [compileCalls, performAll_append, exchanges, ← run_fst_eq_performAll,
    ← reportAll_eq_performAll]
  rfl

/-- The calls that are made in the course of a pass, behind its reset. -/
def passCalls (h : Host P N) (w : World) : List (Call P) :=
  h.roots.map (fun name => .addFile w name true) ++
    (if h.twoPhase then (h.rooted w).compileCalls w (h.rootNames w) .discover else []) ++
    (h.discovered w).compileCalls w (h.emissionNames w) .emit

theorem rooted_eq_performAll (h : Host P N) (w : World) :
    h.rooted w = h.reset.performAll (h.roots.map fun name => .addFile w name true) := by
  rw [performAll, List.foldl_map]
  rfl

theorem discovered_eq_performAll (h : Host P N) (w : World) :
    h.discovered w = (h.rooted w).performAll
      (if h.twoPhase then (h.rooted w).compileCalls w (h.rootNames w) .discover else []) := by
  unfold discovered
  split
  · exact compile_fst_eq_performAll _ w _ .discover
  · rfl

theorem runCompile_fst_eq_performAll (h : Host P N) (w : World) :
    (h.runCompile w).1 = h.reset.performAll (h.passCalls w) := by
  rw [passCalls, performAll_append, performAll_append, ← rooted_eq_performAll,
    ← discovered_eq_performAll, ← compile_fst_eq_performAll, runCompile_fst]

end Host

end CompileHost
