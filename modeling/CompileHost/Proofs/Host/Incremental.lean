import CompileHost.Proofs.Cache.Paths
import CompileHost.Proofs.Host.Calls
import CompileHost.Proofs.Host.Stages

/-!
# Incremental passes and passes from scratch

A host keeps what it has parsed from pass to pass, but a pass comes to the same as on a host that
has never seen a file.  The proof runs both passes side by side: as long as the two hosts know the
same sources, up to handles and versions, and neither cache holds anything that its host would not
parse again, every reply that one gives says what the other says.

* `SetUpLike`: two hosts that are set up alike, whatever they have cached.
* `Matches`: two hosts that are in step in the midst of a pass.
* `Matches.answer`: a reply keeps them in step, and says the same.
* `runCompile_eq_scratch`: the incremental pass and the one from scratch.
-/

namespace CompileHost

/-- The record without the handle and without the generation that it is from. -/
def SourceRecord.anonymous {P : Type} (source : SourceRecord P) : SourceRecord P :=
  { source with parsed := ⟨0, source.parsed.value⟩, version := 0 }

namespace Host

variable {P N : Type}

/-- Two hosts that are set up alike: the same engine, target version, directories, definitions for
directives, roots, and default library. -/
structure SetUpLike (a b : Host P N) : Prop where
  engine : b.engine = a.engine
  target : b.target = a.target
  twoPhase : b.twoPhase = a.twoPhase
  layout : b.layout = a.layout
  definitions : b.processor.definitions = a.processor.definitions
  roots : b.roots = a.roots
  defaultLibrary : b.defaultLibrary.map (·.value) = a.defaultLibrary.map (·.value)

/-- Two hosts are in step. -/
structure Matches (a b : Host P N) : Prop where
  setUp : SetUpLike a b
  soundLeft : a.Sound
  soundRight : b.Sound
  sources : ∀ path, (b.cache.get? path).map SourceRecord.anonymous =
    (a.cache.get? path).map SourceRecord.anonymous
  store : b.store = a.store
  diagnostics : b.diagnostics = a.diagnostics
  failed : b.failed = a.failed

theorem SetUpLike.parse {a b : Host P N} (h : SetUpLike a b) : b.parse = a.parse := by
  funext name text
  simp only [Host.parse, ArtifactProcessor.preprocess, h.engine, h.target, h.definitions]

theorem SetUpLike.relativeName {a b : Host P N} (h : SetUpLike a b) :
    b.relativeName = a.relativeName := by
  funext path
  simp only [Host.relativeName, h.layout]

theorem SetUpLike.parseAt {a b : Host P N} (h : SetUpLike a b) : b.parseAt = a.parseAt := by
  funext path contents
  simp only [Host.parseAt, h.parse, h.relativeName]

/-- What a pass leaves behind has no part in how a host is set up. -/
theorem SetUpLike.of_bare {a b a' b' : Host P N} (h : SetUpLike a b) (hA : a'.bare = a.bare)
    (hB : b'.bare = b.bare) : SetUpLike a' b' := by
  have hBare : SetUpLike a.bare b.bare :=
    ⟨h.engine, h.target, h.twoPhase, h.layout, h.definitions, h.roots, h.defaultLibrary⟩
  rw [← hA, ← hB] at hBare
  exact ⟨hBare.engine, hBare.target, hBare.twoPhase, hBare.layout, hBare.definitions,
    hBare.roots, hBare.defaultLibrary⟩

/-! ## Steps of a pass -/

theorem SetUpLike.reset {a b : Host P N} (h : SetUpLike a b) (hA : a.Sound) (hB : b.Sound) :
    Matches a.reset b.reset where
  setUp := h.of_bare rfl rfl
  soundLeft := hA.reset
  soundRight := hB.reset
  sources path := by simp [Host.reset]
  store := rfl
  diagnostics := rfl
  failed := rfl

/-- Both hosts record the same of a source that both have read. -/
theorem Matches.addContents {a b : Host P N} (h : Matches a b) (path : CanonicalPath)
    (contents : String) (isRoot : Bool) (other : CanonicalPath) :
    ((b.addContents path contents isRoot).1.get? other).map SourceRecord.anonymous =
      ((a.addContents path contents isRoot).1.get? other).map SourceRecord.anonymous := by
  have hLeft := h.soundLeft.value_addContents path contents isRoot
  have hRight := h.soundRight.value_addContents path contents isRoot
  rw [h.setUp.parseAt, ← hLeft] at hRight
  simp only [Host.addContents, h.setUp.relativeName] at hRight ⊢
  rw [SourceCache.get?_add, SourceCache.get?_add]
  by_cases hPath : path = other
  · simp only [if_pos hPath, Option.map_some, SourceRecord.anonymous, hRight]
  · rw [if_neg hPath, if_neg hPath]
    exact h.sources other

theorem Matches.addFile {a b : Host P N} (h : Matches a b) (w : World) (name : String)
    (isRoot : Bool) :
    Matches (a.addFile w name isRoot).1 (b.addFile w name isRoot).1 ∧
      (a.addFile w name isRoot).2.map (·.value) = (b.addFile w name isRoot).2.map (·.value) := by
  have hSoundLeft := h.soundLeft.addFile w name isRoot
  have hSoundRight := h.soundRight.addFile w name isRoot
  have hPath : b.layout.canonicalize name = a.layout.canonicalize name := by rw [h.setUp.layout]
  cases hRead : w.contents? (a.layout.canonicalize name) with
  | none =>
    rw [addFile_of_unreadable hRead, addFile_of_unreadable (hPath ▸ hRead)]
    exact ⟨h, rfl⟩
  | some contents =>
    rw [addFile_of_contents hRead] at hSoundLeft ⊢
    rw [addFile_of_contents (hPath ▸ hRead), hPath] at hSoundRight ⊢
    constructor
    · exact
        { setUp := h.setUp.of_bare rfl rfl
          soundLeft := hSoundLeft
          soundRight := hSoundRight
          sources := h.addContents _ contents isRoot
          store := h.store
          diagnostics := h.diagnostics
          failed := h.failed }
    · simp only [Option.map_some, h.soundLeft.value_addContents, h.soundRight.value_addContents,
        h.setUp.parseAt]

theorem Matches.resolveFile {a b : Host P N} (h : Matches a b) (w : World) (name : String) :
    Matches (a.resolveFile w name).1 (b.resolveFile w name).1 ∧
      (a.resolveFile w name).2.map (·.value) = (b.resolveFile w name).2.map (·.value) := by
  by_cases hName : name = defaultLibraryFile
  · subst hName
    rw [resolveFile_defaultLibrary, resolveFile_defaultLibrary]
    exact ⟨h, h.setUp.defaultLibrary.symm⟩
  · have hSources := h.sources (a.layout.canonicalize name)
    cases hLeft : a.cache.get? (a.layout.canonicalize name) with
    | none =>
      rw [hLeft, Option.map_none, Option.map_eq_none_iff] at hSources
      rw [resolveFile_of_get?_none hName hLeft,
        resolveFile_of_get?_none hName (h.setUp.layout ▸ hSources)]
      exact h.addFile w name false
    | some source =>
      rw [hLeft] at hSources
      obtain ⟨source', hRight, hSame⟩ := Option.map_eq_some_iff.1 hSources
      rw [resolveFile_of_get? hName hLeft,
        resolveFile_of_get? hName (h.setUp.layout ▸ hRight)]
      have hValue : source'.parsed.value = source.parsed.value :=
        congrArg (fun s => s.parsed.value) hSame
      exact ⟨h, by rw [Option.map_some, Option.map_some, hValue]⟩

theorem Matches.emitText {a b : Host P N} (h : Matches a b) (w : World) (name text : String) :
    Matches (a.emitText w name text) (b.emitText w name text) where
  setUp := h.setUp.of_bare rfl rfl
  soundLeft := h.soundLeft
  soundRight := h.soundRight
  sources := h.sources
  store := by simp only [Host.emitText, h.store, h.setUp.layout]
  diagnostics := h.diagnostics
  failed := h.failed

theorem Matches.report {a b : Host P N} (h : Matches a b) (d : Diagnostic) :
    Matches (a.report d) (b.report d) where
  setUp := h.setUp.of_bare rfl rfl
  soundLeft := h.soundLeft
  soundRight := h.soundRight
  sources := h.sources
  store := h.store
  diagnostics := by simp only [Host.report, h.diagnostics]
  failed := by simp only [Host.report, h.failed]

theorem Matches.answer {a b : Host P N} (h : Matches a b) (w : World) (q : Query) :
    Matches (answer w a q).1 (answer w b q).1 ∧
      q.SameReply (answer w a q).2 (answer w b q).2 := by
  cases q with
  | sourceFile name => exact h.resolveFile w name
  | defaultLibraryName =>
    refine ⟨h, ?_⟩
    change a.defaultLibraryName = b.defaultLibraryName
    simp only [defaultLibraryName, h.setUp.engine, h.setUp.target]
  | emitText name text => exact ⟨h.emitText w name text, rfl⟩
  | currentDirectory =>
    refine ⟨h, ?_⟩
    change a.layout.currentDirectory.text = b.layout.currentDirectory.text
    rw [h.setUp.layout]
  | canonicalName name =>
    refine ⟨h, ?_⟩
    change a.layout.canonicalizer.canonicalName name = b.layout.canonicalizer.canonicalName name
    rw [h.setUp.layout]
  | isCaseSensitive =>
    refine ⟨h, ?_⟩
    change a.layout.canonicalizer.caseSensitive = b.layout.canonicalizer.caseSensitive
    rw [h.setUp.layout]
  | report d => exact ⟨h.report d, rfl⟩
  | _ => exact ⟨h, rfl⟩

theorem Matches.addRoots {a b : Host P N} (h : Matches a b) (w : World) (names : List String) :
    Matches (a.addRoots w names) (b.addRoots w names) := by
  unfold Host.addRoots
  induction names generalizing a b with
  | nil => exact h
  | cons name names ih => exact ih (h.addFile w name true).1

theorem Matches.reportAll {a b : Host P N} (h : Matches a b) (ds : Diagnostics) :
    Matches (a.reportAll ds) (b.reportAll ds) := by
  unfold Host.reportAll
  induction ds generalizing a b with
  | nil => exact h
  | cons d ds ih => exact ih (h.report d)

theorem Matches.compile {a b : Host P N} (h : Matches a b) (hEngine : b.engine.IgnoresHandles)
    (w : World) (roots : List String) (mode : CompileMode) :
    Matches (a.compile w roots mode).1 (b.compile w roots mode).1 := by
  obtain ⟨hState, hDiagnostics⟩ :=
    Talk.run_alike (S := Matches) (fun _ _ q hg => hg.answer w q) (hEngine roots mode) h
  unfold Host.compile
  rw [← h.setUp.engine]
  dsimp only
  rw [hDiagnostics]
  exact hState.reportAll _

/-! ## Whole passes -/

theorem Matches.pathsWhere {a b : Host P N} (h : Matches a b) {p : SourceRecord P → Bool}
    (hp : ∀ source, p source.anonymous = p source) :
    b.cache.pathsWhere p = a.cache.pathsWhere p := by
  have hBoth : ∀ (cache : SourceCache P) path,
      (∃ source, cache.get? path = some source ∧ p source = true) ↔
        ∃ source, (cache.get? path).map SourceRecord.anonymous = some source ∧
          p source = true := by
    intro cache path
    constructor
    · rintro ⟨source, hGet, hSource⟩
      exact ⟨source.anonymous, by rw [hGet, Option.map_some], (hp source).trans hSource⟩
    · rintro ⟨_, hMap, hSource⟩
      obtain ⟨source, hGet, rfl⟩ := Option.map_eq_some_iff.1 hMap
      exact ⟨source, hGet, (hp source).symm.trans hSource⟩
  refine SourceCache.pathsWhere_congr fun path => ?_
  rw [hBoth, hBoth, h.sources path]

theorem Matches.passResult {a b : Host P N} (h : Matches a b)
    (roots dependencies : List CanonicalPath) :
    (a.passResult roots dependencies).map (fun s => (s.roots, s.dependencies, s.diagnostics)) =
      (b.passResult roots dependencies).map
        fun s => (s.roots, s.dependencies, s.diagnostics) := by
  unfold Host.passResult
  rw [h.failed, h.diagnostics]
  cases a.failed <;> rfl

theorem Matches.rootFiles {a b : Host P N} (h : Matches a b) : b.rootFiles = a.rootFiles :=
  h.pathsWhere fun _ => rfl

theorem Matches.dependencyModules {a b : Host P N} (h : Matches a b) :
    b.dependencyModules = a.dependencyModules :=
  h.pathsWhere fun _ => rfl

theorem Matches.observedFiles {a b : Host P N} (h : Matches a b) :
    b.observedFiles = a.observedFiles :=
  h.pathsWhere (p := fun _ => true) fun _ => rfl

/-- A pass keeps two hosts in step, and has the same verdict on both. -/
theorem SetUpLike.runCompile {a b : Host P N} (h : SetUpLike a b) (hA : a.Sound) (hB : b.Sound)
    (hEngine : b.engine.IgnoresHandles) (w : World) :
    Matches (a.runCompile w).1 (b.runCompile w).1 ∧
      (a.runCompile w).2.verdict = (b.runCompile w).2.verdict := by
  have hRoots := (h.reset hA hB).addRoots w a.roots
  have hEngine' : ∀ g : Host P N, g.bare = b.bare → g.engine.IgnoresHandles :=
    fun g hg => engine_of_bare hg ▸ hEngine
  unfold Host.runCompile
  dsimp only
  rw [h.roots, hRoots.rootFiles, hRoots.setUp.twoPhase]
  split
  · have hDiscovery := hRoots.compile (hEngine' _ (by simp)) w
      ((a.reset.addRoots w a.roots).rootFiles.map (·.text)) .discover
    have hEmission := fun names => hDiscovery.compile (hEngine' _ (by simp)) w names .emit
    rw [hDiscovery.dependencyModules]
    exact ⟨hEmission _, (hEmission _).passResult _ _⟩
  · have hEmission := fun names => hRoots.compile (hEngine' _ (by simp)) w names .emit
    exact ⟨hEmission _, (hEmission _).passResult _ _⟩

/-- **Incremental equals from scratch.**  Whatever has happened to a host since it knew no source,
its next pass comes to the same as a pass of a host that knows none and is set up alike: the same
verdict, the same roots and modules of dependencies, the same diagnostics, and the same emitted
files. -/
theorem runCompile_eq_scratch {start scratch : Host P N} (hStart : start.IsFresh)
    (hScratch : scratch.IsFresh) (calls : List (Call P)) (w : World)
    (hSetUp : SetUpLike (start.performAll calls) scratch)
    (hEngine : scratch.engine.IgnoresHandles) :
    let warm := (start.performAll calls).runCompile w
    let cold := scratch.runCompile w
    warm.2.verdict = cold.2.verdict ∧ warm.1.store = cold.1.store ∧
      warm.1.rootFiles = cold.1.rootFiles ∧
      warm.1.dependencyModules = cold.1.dependencyModules ∧
      warm.1.observedFiles = cold.1.observedFiles ∧
      warm.1.diagnostics = cold.1.diagnostics ∧ warm.1.failed = cold.1.failed := by
  obtain ⟨hMatch, hVerdict⟩ :=
    hSetUp.runCompile (hStart.sound.performAll calls) hScratch.sound hEngine w
  exact ⟨hVerdict, hMatch.store.symm, hMatch.rootFiles.symm, hMatch.dependencyModules.symm,
    hMatch.observedFiles.symm, hMatch.diagnostics.symm, hMatch.failed.symm⟩

end Host

/-! ## An engine that echoes -/

/-- Asks for every root, and emits its text under its own name. -/
def echoTalk : List String → Talk String (CompileReport Unit)
  | [] => .done ⟨[], ()⟩
  | root :: roots =>
    .ask (.sourceFile root) fun
      | some source => .ask (.emitText root source.value) fun _ => echoTalk roots
      | none => echoTalk roots

theorem alike_echoTalk (roots : List String) :
    Talk.Alike (fun a b => a.diagnostics = b.diagnostics) (echoTalk roots) (echoTalk roots) := by
  induction roots with
  | nil => exact .done rfl
  | cons root roots ih =>
    refine .ask fun r r' hSame => ?_
    cases r with
    | none =>
      cases r' with
      | none => exact ih
      | some source' => cases hSame
    | some source =>
      cases r' with
      | none => cases hSame
      | some source' =>
        have hValue : source.value = source'.value := Option.some.inj hSame
        dsimp only
        rw [hValue]
        exact .ask fun _ _ _ => ih

def Engine.echo : Engine String Unit where
  parse _ text _ := text
  libraryDirectory := "/lib"
  defaultLibraryName _ := "lib.d.ts"
  needsDependencyRoots := true
  compile roots _ := echoTalk roots

/-- A host of the echoing engine, with `/work/src` for sources and `/work/dist` for output. -/
def Host.echo : Host String Unit where
  engine := .echo
  target := .es5
  twoPhase := true
  layout := .of ⟨"/work", true⟩ "src" "dist"
  cache := .empty
  store := .empty
  processor := ⟨none, .basic, {}, false, none, .empty⟩
  roots := ["src/a.ts"]
  defaultLibrary := none
  diagnostics := []
  failed := false

/-- A world of one source with the given bytes. -/
def World.oneSource (bytes : List UInt8) : World :=
  ⟨⟨[(["work", "src", "a.ts"], .file bytes)], []⟩, ⟨[]⟩⟩

theorem runCompile_echo_eq_scratch :
    let calls := [Host.Call.addFile (.oneSource [97]) "src/a.ts" false,
      .runCompile (.oneSource [98]), .resolveFile (.oneSource [97]) "src/a.ts"]
    Host.echo.IsFresh ∧ Host.SetUpLike (Host.echo.performAll calls) Host.echo ∧
      Engine.echo.IgnoresHandles ∧
      ((Host.echo.performAll calls).runCompile (.oneSource [97])).1.store =
        (Host.echo.runCompile (.oneSource [97])).1.store := by
  intro calls
  have hFresh : Host.echo.IsFresh := fun path => by
    simp [Host.echo, SourceCache.get?, SourceCache.getPrevious?, SourceCache.empty]
  have hBare : (Host.echo.performAll calls).bare = Host.echo.bare := by
    simp [calls, Host.performAll, Host.perform]
  have hSetUp : Host.SetUpLike (Host.echo.performAll calls) Host.echo :=
    Host.SetUpLike.of_bare ⟨rfl, rfl, rfl, rfl, rfl, rfl, rfl⟩ hBare rfl
  have hEngine : Engine.echo.IgnoresHandles := fun roots _ => alike_echoTalk roots
  exact ⟨hFresh, hSetUp, hEngine,
    (Host.runCompile_eq_scratch hFresh hFresh calls (.oneSource [97]) hSetUp hEngine).2.1⟩

end CompileHost
