import CompileHost.Proofs.Cache.Paths
import CompileHost.Proofs.Host.Stages

/-!
# Two passes over an unchanged tree

When a pass is repeated and neither the tree nor the host has changed in between, the second pass
repeats the first word for word.  Every source that the first pass has handed out stands, with its
handle, in the generation that the first pass leaves behind, and there the second pass finds it.

Which records that generation will hold is known only at the end of the first pass.  What carries
the proof through the conversation is that records are kept on the way there (`KeptIn`), since a
file that does not change is parsed at most once in a generation.

* `Mirrors`: the cache of the second pass at the same point of the conversation.
* `Repeats.run`: a conversation in the second pass, against the same one in the first.
* `runCompile_unchanged`: nothing is parsed, and everything is as it was.
-/

namespace CompileHost

namespace SourceCache

variable {P : Type}

/-- Every record of the current generation is still there, with its contents and its handle. -/
def KeptIn (cache last : SourceCache P) : Prop :=
  ∀ path source, cache.get? path = some source → ∃ kept, last.get? path = some kept ∧
    kept.contents = source.contents ∧ kept.parsed = source.parsed ∧ kept.version = source.version

theorem keptIn_refl (cache : SourceCache P) : cache.KeptIn cache :=
  fun _ source hGet => ⟨source, hGet, rfl, rfl, rfl⟩

theorem KeptIn.trans {first middle last : SourceCache P} (h₁ : first.KeptIn middle)
    (h₂ : middle.KeptIn last) : first.KeptIn last := by
  intro path source hGet
  obtain ⟨s, hs, hContents, hParsed, hVersion⟩ := h₁ path source hGet
  obtain ⟨t, ht, hContents', hParsed', hVersion'⟩ := h₂ path s hs
  exact ⟨t, ht, hContents'.trans hContents, hParsed'.trans hParsed, hVersion'.trans hVersion⟩

/-- The cache `mirror` has the current generation of `cache`, behind it the generation `last`, and
has parsed nothing since. -/
structure Mirrors (last cache mirror : SourceCache P) : Prop where
  current : ∀ path, mirror.get? path = cache.get? path
  previous : ∀ path, mirror.getPrevious? path = last.get? path
  parses : mirror.parses = last.parses

theorem mirrors_reset (cache last : SourceCache P) : Mirrors last cache.reset last.reset where
  current path := by rw [get?_reset, get?_reset]
  previous path := rfl
  parses := rfl

theorem Mirrors.pathsWhere {last cache mirror : SourceCache P} (h : Mirrors last cache mirror)
    (p : SourceRecord P → Bool) : mirror.pathsWhere p = cache.pathsWhere p :=
  pathsWhere_congr fun path => by rw [h.current path]

section Addition

variable {last cache mirror : SourceCache P} (h : Mirrors last cache mirror)
  {path : CanonicalPath} {name contents : String} {isRoot : Bool} {parse : String → String → P}
  (hKept : (cache.add path name contents isRoot parse).1.KeptIn last)

include h hKept

/-- What an addition has left to the end of the pass is there to be taken over. -/
theorem Mirrors.reusable :
    ∃ source, mirror.reusable? path contents = some source ∧
      source.parsed = (cache.add path name contents isRoot parse).2 ∧
      source.version = cache.versionFor path contents := by
  have hGet := (get?_add cache path name contents isRoot parse path).trans (if_pos rfl)
  obtain ⟨kept, hLast, hContents, hParsed, hVersion⟩ := hKept path _ hGet
  by_cases hSame : ∃ source, cache.get? path = some source ∧ source.contents = contents
  · obtain ⟨source, hCurrent, hSource⟩ := hSame
    have hReuse : cache.reusable? path contents = some source :=
      reusable?_eq_some_iff.2 ⟨hSource, Or.inl hCurrent⟩
    refine ⟨source, ?_, ?_, ?_⟩
    · exact reusable?_eq_some_iff.2 ⟨hSource, Or.inl ((h.current path).trans hCurrent)⟩
    · exact (add_snd_of_reusable name isRoot parse hReuse).symm
    · simp only [versionFor, hReuse]
  · refine ⟨kept, reusable?_eq_some_iff.2 ⟨hContents, Or.inr ⟨?_, ?_⟩⟩, hParsed, hVersion⟩
    · intro source hCurrent hSource
      exact hSame ⟨source, (h.current path).symm.trans hCurrent, hSource⟩
    · exact (h.previous path).trans hLast

theorem Mirrors.add :
    (mirror.add path name contents isRoot parse).2 =
        (cache.add path name contents isRoot parse).2 ∧
      Mirrors last (cache.add path name contents isRoot parse).1
        (mirror.add path name contents isRoot parse).1 := by
  obtain ⟨source, hReuse, hParsed, hVersion⟩ := h.reusable hKept
  have hSnd := (add_snd_of_reusable name isRoot parse hReuse).trans hParsed
  have hVersionFor : mirror.versionFor path contents = cache.versionFor path contents := by
    simp only [versionFor, hReuse] at hVersion ⊢
    exact hVersion
  refine ⟨hSnd, ?_, ?_, ?_⟩
  · intro other
    rw [get?_add, get?_add, hSnd, hVersionFor, h.current other]
  · intro other
    rw [getPrevious?_add]
    exact h.previous other
  · rw [parses_add, hReuse]
    exact h.parses

end Addition

/-- A source that is added again with the contents that it has is kept. -/
theorem keptIn_add {cache : SourceCache P} {path : CanonicalPath} {name contents : String}
    {isRoot : Bool} {parse : String → String → P}
    (hSame : ∀ source, cache.get? path = some source → source.contents = contents) :
    cache.KeptIn (cache.add path name contents isRoot parse).1 := by
  intro other source hGet
  rw [get?_add]
  by_cases hPath : path = other
  · subst hPath
    have hReuse : cache.reusable? path contents = some source :=
      reusable?_eq_some_iff.2 ⟨hSame source hGet, Or.inl hGet⟩
    refine ⟨_, if_pos rfl, (hSame source hGet).symm, ?_, ?_⟩
    · exact add_snd_of_reusable name isRoot parse hReuse
    · simp only [versionFor, hReuse]
  · exact ⟨source, (if_neg hPath).trans hGet, rfl, rfl, rfl⟩

end SourceCache

namespace Host

variable {P N : Type}

/-! ## Records are kept within a pass -/

theorem Reflects.keptIn_addFile {w : World} {h : Host P N} (hw : h.Reflects w) (name : String)
    (isRoot : Bool) : h.cache.KeptIn (h.addFile w name isRoot).1.cache := by
  cases hRead : w.contents? (h.layout.canonicalize name) with
  | none =>
    rw [addFile_of_unreadable hRead]
    exact SourceCache.keptIn_refl _
  | some contents =>
    rw [addFile_of_contents hRead]
    refine SourceCache.keptIn_add fun source hGet => ?_
    exact Option.some.inj ((hw _ source hGet).symm.trans hRead)

/-- What a reply leaves of a generation that reflects the tree. -/
theorem Reflects.answer {w : World} {h : Host P N} (hw : h.Reflects w) (q : Query) :
    (answer w h q).1.Reflects w ∧ h.cache.KeptIn (answer w h q).1.cache := by
  rcases answer_fst_cases w h q with hEq | ⟨name, hEq⟩ | ⟨name, text, hEq⟩ | ⟨d, hEq⟩
  · rw [hEq]
    exact ⟨hw, SourceCache.keptIn_refl _⟩
  · rw [hEq]
    exact ⟨hw.addFile name false, hw.keptIn_addFile name false⟩
  · rw [hEq]
    exact ⟨hw, SourceCache.keptIn_refl _⟩
  · rw [hEq]
    exact ⟨hw, SourceCache.keptIn_refl _⟩

theorem Reflects.run {α : Type} {w : World} {h : Host P N} (hw : h.Reflects w)
    (talk : Talk P α) :
    (talk.run (Host.answer w) h).1.Reflects w ∧
      h.cache.KeptIn (talk.run (Host.answer w) h).1.cache := by
  refine Talk.run_preserves (I := fun g : Host P N => g.Reflects w ∧ h.cache.KeptIn g.cache) ?_
    talk ⟨hw, SourceCache.keptIn_refl _⟩
  rintro g q ⟨hg, hKept⟩
  exact ⟨(hg.answer q).1, hKept.trans (hg.answer q).2⟩

theorem Reflects.compile {w : World} {h : Host P N} (hw : h.Reflects w) (roots : List String)
    (mode : CompileMode) :
    (h.compile w roots mode).1.Reflects w ∧
      h.cache.KeptIn (h.compile w roots mode).1.cache := by
  refine compile_preserves (I := fun g => g.Reflects w ∧ h.cache.KeptIn g.cache) ?_
    (fun _ _ _ hg => hg) (fun _ _ hg => hg) roots mode ⟨hw, SourceCache.keptIn_refl _⟩
  rintro g name ⟨hg, hKept⟩
  exact ⟨hg.addFile name false, hKept.trans (hg.keptIn_addFile name false)⟩

theorem reflects_rooted (h : Host P N) (w : World) : (h.rooted w).Reflects w :=
  addRoots_preserves (fun _ name hg => hg.addFile name true) h.roots (reflects_reset w h)

theorem Reflects.keptIn_addRoots {w : World} {h : Host P N} (hw : h.Reflects w)
    (names : List String) : h.cache.KeptIn (h.addRoots w names).cache := by
  refine (addRoots_preserves (I := fun g => g.Reflects w ∧ h.cache.KeptIn g.cache) ?_ names
    ⟨hw, SourceCache.keptIn_refl _⟩).2
  rintro g name ⟨hg, hKept⟩
  exact ⟨hg.addFile name true, hKept.trans (hg.keptIn_addFile name true)⟩

theorem reflects_discovered (h : Host P N) (w : World) :
    (h.discovered w).Reflects w ∧ (h.rooted w).cache.KeptIn (h.discovered w).cache := by
  unfold discovered
  split
  · exact (h.reflects_rooted w).compile _ _
  · exact ⟨h.reflects_rooted w, SourceCache.keptIn_refl _⟩

theorem keptIn_runCompile (h : Host P N) (w : World) :
    (h.discovered w).cache.KeptIn (h.runCompile w).1.cache := by
  rw [runCompile_fst]
  exact ((h.reflects_discovered w).1.compile _ _).2

/-! ## The second pass -/

/-- The host with another cache. -/
def withCache (h : Host P N) (cache : SourceCache P) : Host P N :=
  { h with cache }

/-- The host in the second pass, where the first one leaves the generation `last` behind. -/
def Repeats (last : SourceCache P) (a b : Host P N) : Prop :=
  ∃ mirror, b = a.withCache mirror ∧ SourceCache.Mirrors last a.cache mirror

section Repeats

variable {last : SourceCache P} {w : World} {a b : Host P N}

theorem Repeats.addFile (h : Repeats last a b) (name : String) (isRoot : Bool)
    (hKept : (a.addFile w name isRoot).1.cache.KeptIn last) :
    Repeats last (a.addFile w name isRoot).1 (b.addFile w name isRoot).1 ∧
      (b.addFile w name isRoot).2 = (a.addFile w name isRoot).2 := by
  obtain ⟨mirror, rfl, hMirror⟩ := h
  cases hRead : w.contents? (a.layout.canonicalize name) with
  | none =>
    rw [addFile_of_unreadable hRead, addFile_of_unreadable (h := a.withCache mirror) hRead]
    exact ⟨⟨mirror, rfl, hMirror⟩, rfl⟩
  | some contents =>
    rw [addFile_of_contents hRead] at hKept ⊢
    rw [addFile_of_contents (h := a.withCache mirror) hRead]
    obtain ⟨hParsed, hNext⟩ := hMirror.add hKept
    exact ⟨⟨_, rfl, hNext⟩, congrArg some hParsed⟩

theorem Repeats.resolveFile (h : Repeats last a b) (name : String)
    (hKept : (a.resolveFile w name).1.cache.KeptIn last) :
    Repeats last (a.resolveFile w name).1 (b.resolveFile w name).1 ∧
      (b.resolveFile w name).2 = (a.resolveFile w name).2 := by
  have hSame := h
  obtain ⟨mirror, rfl, hMirror⟩ := h
  by_cases hName : name = defaultLibraryFile
  · subst hName
    rw [resolveFile_defaultLibrary, resolveFile_defaultLibrary]
    exact ⟨hSame, rfl⟩
  · have hCurrent := hMirror.current (a.layout.canonicalize name)
    cases hGet : a.cache.get? (a.layout.canonicalize name) with
    | none =>
      rw [resolveFile_of_get?_none hName hGet] at hKept ⊢
      rw [resolveFile_of_get?_none (h := a.withCache mirror) hName (hCurrent.trans hGet)]
      exact hSame.addFile name false hKept
    | some source =>
      rw [resolveFile_of_get? hName hGet,
        resolveFile_of_get? (h := a.withCache mirror) hName (hCurrent.trans hGet)]
      exact ⟨hSame, rfl⟩

theorem Repeats.answer (h : Repeats last a b) (q : Query)
    (hKept : (answer w a q).1.cache.KeptIn last) :
    Repeats last (answer w a q).1 (answer w b q).1 ∧ (answer w b q).2 = (answer w a q).2 := by
  cases q with
  | sourceFile name => exact h.resolveFile name hKept
  | emitText name text =>
    obtain ⟨mirror, rfl, hMirror⟩ := h
    exact ⟨⟨mirror, rfl, hMirror⟩, rfl⟩
  | report d =>
    obtain ⟨mirror, rfl, hMirror⟩ := h
    exact ⟨⟨mirror, rfl, hMirror⟩, rfl⟩
  | _ =>
    obtain ⟨mirror, rfl, hMirror⟩ := h
    exact ⟨⟨mirror, rfl, hMirror⟩, rfl⟩

/-- A conversation is repeated if the generation it leads to is the one that the second pass
finds behind it. -/
theorem Repeats.run {α : Type} (talk : Talk P α) (h : Repeats last a b) (hw : a.Reflects w)
    (hKept : (talk.run (Host.answer w) a).1.cache.KeptIn last) :
    Repeats last (talk.run (Host.answer w) a).1 (talk.run (Host.answer w) b).1 ∧
      (talk.run (Host.answer w) b).2 = (talk.run (Host.answer w) a).2 ∧
      talk.transcript (Host.answer w) b = talk.transcript (Host.answer w) a := by
  induction talk generalizing a b with
  | done result => exact ⟨h, rfl, rfl⟩
  | ask q next ih =>
    have hRest : (Host.answer w a q).1.cache.KeptIn last :=
      ((hw.answer q).1.run (next (Host.answer w a q).2)).2.trans hKept
    obtain ⟨hState, hReply⟩ := h.answer q hRest
    obtain ⟨hEnd, hResult, hTranscript⟩ :=
      ih (Host.answer w a q).2 hState (hw.answer q).1 hKept
    simp only [Talk.run, Talk.transcript, hReply]
    exact ⟨hEnd, hResult, by rw [hTranscript]⟩

theorem Repeats.addRoots (h : Repeats last a b) (hw : a.Reflects w) (names : List String)
    (hKept : (a.addRoots w names).cache.KeptIn last) :
    Repeats last (a.addRoots w names) (b.addRoots w names) := by
  unfold Host.addRoots at hKept ⊢
  induction names generalizing a b with
  | nil => exact h
  | cons name names ih =>
    have hNext := hw.addFile name true
    have hFirst := (hNext.keptIn_addRoots names).trans hKept
    exact ih (h.addFile name true hFirst).1 hNext hKept

theorem Repeats.reportAll (h : Repeats last a b) (ds : Diagnostics) :
    Repeats last (a.reportAll ds) (b.reportAll ds) := by
  unfold Host.reportAll
  induction ds generalizing a b with
  | nil => exact h
  | cons d ds ih =>
    obtain ⟨mirror, rfl, hMirror⟩ := h
    exact ih ⟨mirror, rfl, hMirror⟩

theorem Repeats.compile (h : Repeats last a b) (hw : a.Reflects w) (roots : List String)
    (mode : CompileMode) (hKept : (a.compile w roots mode).1.cache.KeptIn last) :
    Repeats last (a.compile w roots mode).1 (b.compile w roots mode).1 ∧
      (b.compile w roots mode).2 = (a.compile w roots mode).2 ∧
      b.exchanges w roots mode = a.exchanges w roots mode := by
  have hEngine : b.engine = a.engine := by
    obtain ⟨mirror, rfl, -⟩ := h
    rfl
  simp only [Host.compile, cache_reportAll] at hKept
  obtain ⟨hState, hReport, hTranscript⟩ := h.run (a.engine.compile roots mode) hw hKept
  unfold Host.compile exchanges
  rw [hEngine]
  dsimp only
  rw [hReport]
  exact ⟨hState.reportAll _, rfl, hTranscript⟩

theorem Repeats.rootFiles (h : Repeats last a b) : b.rootFiles = a.rootFiles := by
  obtain ⟨mirror, rfl, hMirror⟩ := h
  exact hMirror.pathsWhere _

theorem Repeats.dependencyModules (h : Repeats last a b) :
    b.dependencyModules = a.dependencyModules := by
  obtain ⟨mirror, rfl, hMirror⟩ := h
  exact hMirror.pathsWhere _

theorem Repeats.observedFiles (h : Repeats last a b) : b.observedFiles = a.observedFiles := by
  obtain ⟨mirror, rfl, hMirror⟩ := h
  exact hMirror.pathsWhere fun _ => true

end Repeats

/-! ## The two passes -/

theorem repeats_reset {a b : Host P N} (h : b.bare = a.bare) :
    Repeats b.cache a.reset b.reset := by
  refine ⟨b.cache.reset, ?_, SourceCache.mirrors_reset _ _⟩
  change b.bare.withCache b.cache.reset = a.bare.withCache b.cache.reset
  rw [h]

theorem repeats_rooted (h : Host P N) (w : World) :
    Repeats (h.runCompile w).1.cache (h.rooted w) ((h.runCompile w).1.rooted w) := by
  have hBare := bare_runCompile h w
  have hRoots : (h.runCompile w).1.roots = h.roots :=
    show (h.runCompile w).1.bare.roots = h.bare.roots by rw [hBare]
  have hKept := (h.reflects_discovered w).2.trans (h.keptIn_runCompile w)
  unfold rooted at hKept ⊢
  rw [hRoots]
  exact (repeats_reset hBare).addRoots (reflects_reset w h) h.roots hKept

theorem rootNames_runCompile (h : Host P N) (w : World) :
    (h.runCompile w).1.rootNames w = h.rootNames w := by
  unfold rootNames
  rw [(h.repeats_rooted w).rootFiles]

theorem twoPhase_runCompile (h : Host P N) (w : World) :
    (h.runCompile w).1.twoPhase = h.twoPhase :=
  show (h.runCompile w).1.bare.twoPhase = h.bare.twoPhase by rw [bare_runCompile]

/-- The phase that finds dependencies, if there is one, is repeated. -/
theorem repeats_discovered (h : Host P N) (w : World) :
    Repeats (h.runCompile w).1.cache (h.discovered w) ((h.runCompile w).1.discovered w) ∧
      (h.runCompile w).1.discoveryPhase w = h.discoveryPhase w ∧
      (h.twoPhase = true → ((h.runCompile w).1.rooted w).exchanges w (h.rootNames w) .discover =
        (h.rooted w).exchanges w (h.rootNames w) .discover) := by
  have hRooted := h.repeats_rooted w
  have hKept := h.keptIn_runCompile w
  unfold discovered discoveryPhase at *
  rw [twoPhase_runCompile, rootNames_runCompile]
  by_cases hPhase : h.twoPhase = true
  · rw [if_pos hPhase] at hKept
    obtain ⟨hState, hCall, hExchanges⟩ :=
      hRooted.compile (h.reflects_rooted w) (h.rootNames w) .discover hKept
    simp only [if_pos hPhase]
    exact ⟨hState, congrArg (fun phase => [phase]) hCall, fun _ => hExchanges⟩
  · simp only [if_neg hPhase]
    exact ⟨hRooted, trivial, fun hTrue => absurd hTrue hPhase⟩

theorem foundModules_runCompile (h : Host P N) (w : World) :
    (h.runCompile w).1.foundModules w = h.foundModules w := by
  unfold foundModules
  rw [twoPhase_runCompile, (h.repeats_discovered w).1.dependencyModules]

theorem Repeats.passResult {last : SourceCache P} {a b : Host P N} (h : Repeats last a b)
    (roots dependencies : List CanonicalPath) :
    (b.passResult roots dependencies).map (fun s => (s.roots, s.dependencies, s.diagnostics)) =
      (a.passResult roots dependencies).map
        fun s => (s.roots, s.dependencies, s.diagnostics) := by
  obtain ⟨mirror, rfl, -⟩ := h
  unfold Host.passResult withCache
  cases a.failed <;> rfl

theorem emissionNames_runCompile (h : Host P N) (w : World) :
    (h.runCompile w).1.emissionNames w = h.emissionNames w := by
  unfold emissionNames
  rw [rootNames_runCompile, foundModules_runCompile]

/-- The phase that emits is repeated. -/
theorem repeats_emission (h : Host P N) (w : World) :
    let first := ((h.discovered w).compile w (h.emissionNames w) .emit)
    let second := (((h.runCompile w).1.discovered w).compile w (h.emissionNames w) .emit)
    Repeats (h.runCompile w).1.cache first.1 second.1 ∧ second.2 = first.2 ∧
      ((h.runCompile w).1.discovered w).exchanges w (h.emissionNames w) .emit =
        (h.discovered w).exchanges w (h.emissionNames w) .emit := by
  refine (h.repeats_discovered w).1.compile (h.reflects_discovered w).1 _ .emit ?_
  rw [← runCompile_fst]
  exact SourceCache.keptIn_refl _

/-- The second pass leaves the host as the first did, but for its cache. -/
theorem repeats_runCompile (h : Host P N) (w : World) :
    Repeats (h.runCompile w).1.cache (h.runCompile w).1
      ((h.runCompile w).1.runCompile w).1 := by
  have hEnd := (h.repeats_emission w).1
  rw [← runCompile_fst, ← emissionNames_runCompile, ← runCompile_fst] at hEnd
  exact hEnd

theorem verdict_runCompile (h : Host P N) (w : World) :
    ((h.runCompile w).1.runCompile w).2.verdict = (h.runCompile w).2.verdict := by
  have hEnd := (h.repeats_emission w).1
  rw [runCompile_eq (h.runCompile w).1, emissionNames_runCompile, foundModules_runCompile,
    (h.repeats_rooted w).rootFiles]
  generalize (h.runCompile w).1 = first at hEnd ⊢
  rw [runCompile_eq h]
  exact hEnd.passResult _ _

theorem phases_runCompile (h : Host P N) (w : World) :
    ((h.runCompile w).1.runCompile w).2.phases = (h.runCompile w).2.phases := by
  have hPhase := (h.repeats_discovered w).2.1
  have hEmission := (h.repeats_emission w).2.1
  rw [runCompile_eq (h.runCompile w).1, emissionNames_runCompile]
  generalize (h.runCompile w).1 = first at hPhase hEmission ⊢
  rw [runCompile_eq h]
  dsimp only at hEmission ⊢
  rw [hPhase, hEmission]

theorem passExchanges_runCompile (h : Host P N) (w : World) :
    (h.runCompile w).1.passExchanges w = h.passExchanges w := by
  have hDiscovery := (h.repeats_discovered w).2.2
  have hEmission := (h.repeats_emission w).2.2
  unfold passExchanges
  rw [emissionNames_runCompile, hEmission, twoPhase_runCompile, rootNames_runCompile]
  by_cases hPhase : h.twoPhase = true
  · rw [if_pos hPhase, if_pos hPhase, hDiscovery hPhase]
  · rw [if_neg hPhase, if_neg hPhase]

/-- **An unchanged pass parses nothing.**  A pass that follows upon another one, over the same
tree, parses nothing.  In each of its phases the engine asks the same questions and gets the same
replies, handles included; and it leaves the same emitted files, has the same verdict whether it
fails or not, and the same roots, modules of dependencies and diagnostics. -/
theorem runCompile_unchanged (h : Host P N) (w : World) :
    let first := h.runCompile w
    let second := first.1.runCompile w
    second.1.cache.parses = first.1.cache.parses ∧
      first.1.passExchanges w = h.passExchanges w ∧
      second.1.store = first.1.store ∧ second.2.verdict = first.2.verdict ∧
      second.2.phases = first.2.phases ∧ second.1.rootFiles = first.1.rootFiles ∧
      second.1.dependencyModules = first.1.dependencyModules ∧
      second.1.observedFiles = first.1.observedFiles ∧
      second.1.diagnostics = first.1.diagnostics := by
  intro first second
  have hEnd : Repeats first.1.cache first.1 second.1 := h.repeats_runCompile w
  obtain ⟨mirror, hMirror, hCaches⟩ := id hEnd
  refine ⟨?_, h.passExchanges_runCompile w, ?_, h.verdict_runCompile w, h.phases_runCompile w,
    hEnd.rootFiles, hEnd.dependencyModules, hEnd.observedFiles, ?_⟩
  · rw [hMirror]
    exact hCaches.parses
  · rw [hMirror]
    rfl
  · rw [hMirror]
    rfl

end Host

end CompileHost
