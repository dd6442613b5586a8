import CompileHost.Host.Pass
import CompileHost.Proofs.Cache.Addition
import CompileHost.Proofs.Host.Conversation

/-!
# Sources of a host

How the operations of a host change its cache.  A source gets in by `addFile` alone, with the text
that its file has at that time, parsed under the name that leads to it from the current directory.

* `bare`: a host without what passes leave behind; no operation of a pass changes it.
* `resolveFile_cases`, `answer_fst_cases`: what a request and a reply do to the host.
* `Sound`: every record, of either generation, holds what the host makes of its contents now.
* `Reflects`: every record of the current generation has the contents that its file has now.
-/

namespace CompileHost

/-- The text of a file, as sources are read. -/
def World.contents? (w : World) (path : CanonicalPath) : Option String :=
  (w.tree.read? path.text).map Text.decodeLossy

namespace Host

variable {P N : Type}

/-! ## What passes leave alone -/

/-- The host as if nothing had ever been compiled. -/
def bare (h : Host P N) : Host P N :=
  { h with cache := .empty, store := .empty, diagnostics := [], failed := false }

theorem engine_of_bare {a b : Host P N} (h : a.bare = b.bare) : a.engine = b.engine :=
  show a.bare.engine = b.bare.engine by rw [h]

@[simp]
theorem bare_reset (h : Host P N) : h.reset.bare = h.bare := rfl

@[simp]
theorem bare_report (h : Host P N) (d : Diagnostic) : (h.report d).bare = h.bare := rfl

@[simp]
theorem bare_emitText (h : Host P N) (w : World) (name text : String) :
    (h.emitText w name text).bare = h.bare := rfl

@[simp]
theorem bare_addFile (h : Host P N) (w : World) (name : String) (isRoot : Bool) :
    (h.addFile w name isRoot).1.bare = h.bare := by
  unfold addFile
  dsimp only
  split <;> rfl

@[simp]
theorem cache_reportAll (h : Host P N) (ds : Diagnostics) :
    (h.reportAll ds).cache = h.cache := by
  unfold reportAll
  induction ds generalizing h with
  | nil => rfl
  | cons d ds ih => exact ih (h.report d)

/-! ## Adding a file -/

/-- The name under which a source is parsed. -/
def relativeName (h : Host P N) (path : CanonicalPath) : String :=
  Path.relative h.layout.currentDirectory.text path.text

/-- What the host makes of a source. -/
def parseAt (h : Host P N) (path : CanonicalPath) (contents : String) : P :=
  h.parse (h.relativeName path) contents

/-- The cache with a source added that has been read. -/
def addContents (h : Host P N) (path : CanonicalPath) (contents : String) (isRoot : Bool) :
    SourceCache P × Parsed P :=
  h.cache.add path (h.relativeName path) contents isRoot h.parse

theorem addFile_of_unreadable {h : Host P N} {w : World} {name : String}
    (hRead : w.contents? (h.layout.canonicalize name) = none) (isRoot : Bool) :
    h.addFile w name isRoot = (h, none) := by
  rw [World.contents?, Option.map_eq_none_iff] at hRead
  simp [addFile, hRead]

theorem addFile_of_contents {h : Host P N} {w : World} {name contents : String}
    (hRead : w.contents? (h.layout.canonicalize name) = some contents) (isRoot : Bool) :
    h.addFile w name isRoot =
      ({ h with cache := (h.addContents (h.layout.canonicalize name) contents isRoot).1 },
        some (h.addContents (h.layout.canonicalize name) contents isRoot).2) := by
  obtain ⟨bytes, hBytes, rfl⟩ := Option.map_eq_some_iff.1 hRead
  simp [addFile, addContents, relativeName, hBytes]

/-! ## Replies -/

theorem resolveFile_defaultLibrary (h : Host P N) (w : World) :
    h.resolveFile w defaultLibraryFile = (h, h.defaultLibrary) := by
  simp [resolveFile]

theorem resolveFile_of_get? {h : Host P N} {w : World} {name : String}
    (hName : name ≠ defaultLibraryFile) {source : SourceRecord P}
    (hGet : h.cache.get? (h.layout.canonicalize name) = some source) :
    h.resolveFile w name = (h, some source.parsed) := by
  simp [resolveFile, hName, hGet]

theorem resolveFile_of_get?_none {h : Host P N} {w : World} {name : String}
    (hName : name ≠ defaultLibraryFile)
    (hGet : h.cache.get? (h.layout.canonicalize name) = none) :
    h.resolveFile w name = h.addFile w name false := by
  simp [resolveFile, hName, hGet]

/-- A request is for the default library, or for a source that is at hand, or it adds a file. -/
theorem resolveFile_cases (h : Host P N) (w : World) (name : String) :
    (name = defaultLibraryFile ∧ h.resolveFile w name = (h, h.defaultLibrary)) ∨
      name ≠ defaultLibraryFile ∧
        ((∃ source, h.cache.get? (h.layout.canonicalize name) = some source ∧
            h.resolveFile w name = (h, some source.parsed)) ∨
          h.cache.get? (h.layout.canonicalize name) = none ∧
            h.resolveFile w name = h.addFile w name false) := by
  by_cases hName : name = defaultLibraryFile
  · exact Or.inl ⟨hName, hName ▸ h.resolveFile_defaultLibrary w⟩
  · refine Or.inr ⟨hName, ?_⟩
    cases hGet : h.cache.get? (h.layout.canonicalize name) with
    | some source => exact Or.inl ⟨source, rfl, resolveFile_of_get? hName hGet⟩
    | none => exact Or.inr ⟨rfl, resolveFile_of_get?_none hName hGet⟩

theorem resolveFile_fst_cases (h : Host P N) (w : World) (name : String) :
    (h.resolveFile w name).1 = h ∨ (h.resolveFile w name).1 = (h.addFile w name false).1 := by
  rcases h.resolveFile_cases w name with ⟨-, hEq⟩ | ⟨-, ⟨source, -, hEq⟩ | ⟨-, hEq⟩⟩
  · exact Or.inl (congrArg Prod.fst hEq)
  · exact Or.inl (congrArg Prod.fst hEq)
  · exact Or.inr (congrArg Prod.fst hEq)

/-- A reply leaves the host as it is, adds a file, takes in an emitted text, or notes a
diagnostic. -/
theorem answer_fst_cases (w : World) (h : Host P N) (q : Query) :
    (answer w h q).1 = h ∨ (∃ name, (answer w h q).1 = (h.addFile w name false).1) ∨
      (∃ name text, (answer w h q).1 = h.emitText w name text) ∨
      ∃ d, (answer w h q).1 = h.report d := by
  cases q with
  | sourceFile name =>
    rcases h.resolveFile_fst_cases w name with hSame | hAdded
    · exact Or.inl hSame
    · exact Or.inr (Or.inl ⟨name, hAdded⟩)
  | emitText name text => exact Or.inr (Or.inr (Or.inl ⟨name, text, rfl⟩))
  | report d => exact Or.inr (Or.inr (Or.inr ⟨d, rfl⟩))
  | _ => exact Or.inl rfl

@[simp]
theorem bare_resolveFile (h : Host P N) (w : World) (name : String) :
    (h.resolveFile w name).1.bare = h.bare := by
  rcases h.resolveFile_fst_cases w name with hEq | hEq
  · rw [hEq]
  · rw [hEq, bare_addFile]

@[simp]
theorem bare_answer (w : World) (h : Host P N) (q : Query) : (answer w h q).1.bare = h.bare := by
  rcases answer_fst_cases w h q with hEq | ⟨name, hEq⟩ | ⟨name, text, hEq⟩ | ⟨d, hEq⟩
  · rw [hEq]
  · rw [hEq, bare_addFile]
  · rw [hEq, bare_emitText]
  · rw [hEq, bare_report]

/-! ## What passes are made of -/

/-- What adding a root preserves, adding all of them preserves. -/
theorem addRoots_preserves {I : Host P N → Prop} {w : World}
    (hAdd : ∀ h name, I h → I (h.addFile w name true).1) (names : List String) {h : Host P N}
    (hI : I h) : I (h.addRoots w names) := by
  unfold addRoots
  induction names generalizing h with
  | nil => exact hI
  | cons name names ih => exact ih (hAdd h name hI)

/-- What additions preserve, and what does not look at diagnostics or emitted texts, holds behind
a call of the engine. -/
theorem compile_preserves {I : Host P N → Prop} {w : World}
    (hAdd : ∀ h name, I h → I (h.addFile w name false).1)
    (hEmit : ∀ h name text, I h → I (h.emitText w name text))
    (hReport : ∀ h d, I h → I (h.report d)) (roots : List String) (mode : CompileMode)
    {h : Host P N} (hI : I h) : I (h.compile w roots mode).1 := by
  have hAnswer : ∀ (g : Host P N) q, I g → I (answer w g q).1 := by
    intro g q hg
    rcases answer_fst_cases w g q with hEq | ⟨name, hEq⟩ | ⟨name, text, hEq⟩ | ⟨d, hEq⟩
    · rwa [hEq]
    · rw [hEq]
      exact hAdd g name hg
    · rw [hEq]
      exact hEmit g name text hg
    · rw [hEq]
      exact hReport g d hg
  have hAll : ∀ (ds : Diagnostics) (g : Host P N), I g → I (g.reportAll ds) := by
    intro ds
    unfold reportAll
    induction ds with
    | nil => exact fun g hg => hg
    | cons d ds ih => exact fun g hg => ih (g.report d) (hReport g d hg)
  exact hAll _ _ (Talk.run_preserves hAnswer (h.engine.compile roots mode) hI)

/-- What holds at the start of a generation, and what additions preserve, holds after a pass. -/
theorem runCompile_preserves {I : Host P N → Prop} {w : World}
    (hAdd : ∀ h name isRoot, I h → I (h.addFile w name isRoot).1)
    (hEmit : ∀ h name text, I h → I (h.emitText w name text))
    (hReport : ∀ h d, I h → I (h.report d)) {h : Host P N} (hI : I h.reset) :
    I (h.runCompile w).1 := by
  have hCompile : ∀ (g : Host P N) roots mode, I g → I (g.compile w roots mode).1 :=
    fun g roots mode hg =>
      compile_preserves (fun g name hg => hAdd g name false hg) hEmit hReport roots mode hg
  have hRoots := addRoots_preserves (fun g name hg => hAdd g name true hg) h.roots hI
  unfold runCompile
  dsimp only
  split
  · exact hCompile _ _ _ (hCompile _ _ _ hRoots)
  · exact hCompile _ _ _ hRoots

@[simp]
theorem bare_addRoots (h : Host P N) (w : World) (names : List String) :
    (h.addRoots w names).bare = h.bare :=
  addRoots_preserves (I := fun g => g.bare = h.bare) (fun g name hg => by rw [bare_addFile, hg])
    names rfl

@[simp]
theorem bare_compile (h : Host P N) (w : World) (roots : List String) (mode : CompileMode) :
    (h.compile w roots mode).1.bare = h.bare :=
  compile_preserves (I := fun g => g.bare = h.bare) (fun g name hg => by rw [bare_addFile, hg])
    (fun _ _ _ hg => hg) (fun _ _ hg => hg) roots mode rfl

@[simp]
theorem bare_runCompile (h : Host P N) (w : World) : (h.runCompile w).1.bare = h.bare :=
  runCompile_preserves (I := fun g => g.bare = h.bare)
    (fun g name isRoot hg => by rw [bare_addFile, hg]) (fun _ _ _ hg => hg) (fun _ _ hg => hg) rfl

/-! ## Sound caches -/

/-- Every record holds what the host makes of its contents now. -/
def Sound (h : Host P N) : Prop :=
  ∀ path source, h.cache.get? path = some source ∨ h.cache.getPrevious? path = some source →
    source.parsed.value = h.parseAt path source.contents

/-- A host with a sound cache hands out what it would parse, parsed now or before. -/
theorem Sound.value_addContents {h : Host P N} (hSound : h.Sound) (path : CanonicalPath)
    (contents : String) (isRoot : Bool) :
    (h.addContents path contents isRoot).2.value = h.parseAt path contents := by
  unfold addContents
  cases hReuse : h.cache.reusable? path contents with
  | none =>
    rw [SourceCache.add_snd_of_fresh _ _ _ hReuse]
    rfl
  | some source =>
    rw [SourceCache.add_snd_of_reusable _ _ _ hReuse,
      hSound path source (SourceCache.recorded_of_reusable? hReuse),
      (SourceCache.reusable?_eq_some_iff.1 hReuse).1]

theorem Sound.reset {h : Host P N} (hSound : h.Sound) : h.reset.Sound := by
  intro path source hSource
  refine hSound path source (Or.inl ?_)
  rcases hSource with hNone | hSome
  · exact absurd hNone (by simp [Host.reset])
  · exact hSome

theorem Sound.addFile {h : Host P N} (hSound : h.Sound) (w : World) (name : String)
    (isRoot : Bool) : (h.addFile w name isRoot).1.Sound := by
  cases hRead : w.contents? (h.layout.canonicalize name) with
  | none => rwa [addFile_of_unreadable hRead]
  | some contents =>
    rw [addFile_of_contents hRead]
    intro path source hSource
    change source.parsed.value = h.parseAt path source.contents
    have hValue := hSound.value_addContents (h.layout.canonicalize name) contents isRoot
    dsimp only [addContents] at hSource hValue
    rw [SourceCache.get?_add, SourceCache.getPrevious?_add] at hSource
    by_cases hPath : h.layout.canonicalize name = path
    · rw [if_pos hPath] at hSource
      rcases hSource with hNew | hOld
      · cases hNew
        rw [← hPath]
        exact hValue
      · exact hSound path source (Or.inr hOld)
    · rw [if_neg hPath] at hSource
      exact hSound path source hSource

theorem Sound.resolveFile {h : Host P N} (hSound : h.Sound) (w : World) (name : String) :
    (h.resolveFile w name).1.Sound := by
  rcases h.resolveFile_fst_cases w name with hEq | hEq
  · rwa [hEq]
  · rw [hEq]
    exact hSound.addFile w name false

theorem Sound.answer {h : Host P N} (hSound : h.Sound) (w : World) (q : Query) :
    (answer w h q).1.Sound := by
  rcases answer_fst_cases w h q with hEq | ⟨name, hEq⟩ | ⟨name, text, hEq⟩ | ⟨d, hEq⟩
  · rwa [hEq]
  · rw [hEq]
    exact hSound.addFile w name false
  · rw [hEq]
    exact hSound
  · rw [hEq]
    exact hSound

theorem Sound.runCompile {h : Host P N} (hSound : h.Sound) (w : World) :
    (h.runCompile w).1.Sound :=
  runCompile_preserves (I := Sound) (fun _ name isRoot hg => hg.addFile w name isRoot)
    (fun _ _ _ hg => hg) (fun _ _ hg => hg) hSound.reset

/-! ## Current sources -/

/-- Every record of the current generation has the contents of its file. -/
def Reflects (w : World) (h : Host P N) : Prop :=
  ∀ path source, h.cache.get? path = some source → w.contents? path = some source.contents

theorem reflects_reset (w : World) (h : Host P N) : h.reset.Reflects w := by
  intro path source hGet
  simp [reset] at hGet

theorem Reflects.addFile {w : World} {h : Host P N} (hw : h.Reflects w) (name : String)
    (isRoot : Bool) : (h.addFile w name isRoot).1.Reflects w := by
  cases hRead : w.contents? (h.layout.canonicalize name) with
  | none => rwa [addFile_of_unreadable hRead]
  | some contents =>
    rw [addFile_of_contents hRead]
    intro path source hGet
    dsimp only [addContents] at hGet
    rw [SourceCache.get?_add] at hGet
    by_cases hPath : h.layout.canonicalize name = path
    · rw [if_pos hPath] at hGet
      cases hGet
      exact hPath ▸ hRead
    · rw [if_neg hPath] at hGet
      exact hw path source hGet

end Host

end CompileHost
