import CompileHost.Proofs.Cache.Paths
import CompileHost.Proofs.Host.Artifacts
import Mathlib.Data.List.Nodup

/-!
# Records of a generation

A source has a record in a generation from its first addition on.  Only the roots are added before
the engine is called for the first time, and they are added as roots; what the engine asks for is
added later, and a record that is there already is left alone.  So the roots of a pass are the
readable ones among the names it was given, and the modules that the engine finds are the recorded
sources below `node_modules`.

A root below `node_modules` is both, and is handed to the engine twice (`nodup_emissionRoots_iff`,
`echo_emits_dependency_root_twice`).

* `get?_performAll_of_retains`: calls that do not add a source leave its record.
* `mem_rootFiles_rooted`, `mem_dependencyModules`: the two lists of a pass.
* `count_emissionRoots`: how often a path is handed to the engine.
-/

namespace CompileHost.Host

variable {P N : Type}

/-! ## Records that stay -/

/-- A call that leaves the record of a source as it is: no start of a generation, and no addition
of this source. -/
def Call.Retains (l : Layout) (path : CanonicalPath) : Call P → Prop
  | .reset => False
  | .runCompile _ => False
  | .addFile _ name _ => l.canonicalize name ≠ path
  | _ => True

/-- In a phase the engine does nothing but ask. -/
theorem eq_ask_of_mem_compileCalls {h : Host P N} {w : World} {roots : List String}
    {mode : CompileMode} {call : Call P} (hCall : call ∈ h.compileCalls w roots mode) :
    ∃ q, call = .ask w q := by
  rcases List.mem_append.1 hCall with hAsked | hReturned
  · obtain ⟨exchange, -, rfl⟩ := List.mem_map.1 hAsked
    exact ⟨exchange.1, rfl⟩
  · obtain ⟨d, -, rfl⟩ := List.mem_map.1 hReturned
    exact ⟨.report d, rfl⟩

/-- A pass adds its roots, and the engine asks. -/
theorem mem_passCalls_cases {h : Host P N} {w : World} {call : Call P}
    (hCall : call ∈ h.passCalls w) :
    (∃ name ∈ h.roots, call = .addFile w name true) ∨ ∃ q, call = .ask w q := by
  rcases List.mem_append.1 hCall with hEarlier | hEmission
  · rcases List.mem_append.1 hEarlier with hRoot | hDiscovery
    · obtain ⟨name, hName, rfl⟩ := List.mem_map.1 hRoot
      exact Or.inl ⟨name, hName, rfl⟩
    · split at hDiscovery
      · exact Or.inr (eq_ask_of_mem_compileCalls hDiscovery)
      · cases hDiscovery
  · exact Or.inr (eq_ask_of_mem_compileCalls hEmission)

section Retention

variable {h : Host P N} {l : Layout} {path : CanonicalPath} {source : SourceRecord P}

theorem get?_addFile_of_ne (w : World) {name : String} (isRoot : Bool)
    (hName : h.layout.canonicalize name ≠ path) :
    (h.addFile w name isRoot).1.cache.get? path = h.cache.get? path := by
  cases hRead : w.contents? (h.layout.canonicalize name) with
  | none => rw [addFile_of_unreadable hRead]
  | some contents =>
    rw [addFile_of_contents hRead]
    dsimp only [addContents]
    rw [SourceCache.get?_add, if_neg hName]

/-- A source that is asked for is added only if it has no record. -/
theorem get?_resolveFile_of_some (w : World) (name : String)
    (hGet : h.cache.get? path = some source) :
    (h.resolveFile w name).1.cache.get? path = some source := by
  rcases h.resolveFile_cases w name with ⟨-, hEq⟩ | ⟨-, ⟨other, -, hEq⟩ | ⟨hNone, hEq⟩⟩
  · rwa [hEq]
  · rwa [hEq]
  · have hOther : h.layout.canonicalize name ≠ path := by
      rintro rfl
      rw [hGet] at hNone
      cases hNone
    rw [hEq, get?_addFile_of_ne w false hOther, hGet]

theorem get?_perform_of_retains (hLayout : h.layout = l) {call : Call P}
    (hCall : call.Retains l path) (hGet : h.cache.get? path = some source) :
    (h.perform call).cache.get? path = some source := by
  subst hLayout
  cases call with
  | reset => exact hCall.elim
  | runCompile w => exact hCall.elim
  | addFile w name isRoot =>
    rw [perform, get?_addFile_of_ne w isRoot hCall, hGet]
  | resolveFile w name => exact get?_resolveFile_of_some w name hGet
  | ask w q =>
    cases q with
    | sourceFile name => exact get?_resolveFile_of_some w name hGet
    | _ => exact hGet
  | _ => exact hGet

theorem get?_performAll_of_retains (hLayout : h.layout = l) {calls : List (Call P)}
    (hCalls : ∀ call ∈ calls, call.Retains l path) (hGet : h.cache.get? path = some source) :
    (h.performAll calls).cache.get? path = some source := by
  induction calls generalizing h with
  | nil => exact hGet
  | cons call calls ih =>
    have hNext : (h.perform call).layout = l :=
      (h.layout_perform call).trans hLayout
    exact ih hNext (fun other hOther => hCalls other (List.mem_cons_of_mem call hOther))
      (get?_perform_of_retains hLayout (hCalls call List.mem_cons_self) hGet)

end Retention

/-! ## The lists of a pass -/

section Lists

variable {h : Host P N} {w : World} {path : CanonicalPath}

/-- A file that is given as a root and can be read. -/
def IsReadableRoot (h : Host P N) (w : World) (path : CanonicalPath) : Prop :=
  (∃ name ∈ h.roots, h.layout.canonicalize name = path) ∧ (w.contents? path).isSome = true

instance : Decidable (h.IsReadableRoot w path) :=
  inferInstanceAs (Decidable (_ ∧ _))

/-- A module of a dependency that is recorded when the engine has found what it needs. -/
def IsFoundModule (h : Host P N) (w : World) (path : CanonicalPath) : Prop :=
  h.twoPhase = true ∧ ((h.discovered w).cache.get? path).isSome = true ∧
    Path.isDependencyModule path.text = true

instance : Decidable (h.IsFoundModule w path) :=
  inferInstanceAs (Decidable (_ ∧ _ ∧ _))

theorem isSome_get?_addFile (h : Host P N) (w : World) (name : String) (isRoot : Bool) :
    ((h.addFile w name isRoot).1.cache.get? path).isSome = true ↔
      (h.cache.get? path).isSome = true ∨
        h.layout.canonicalize name = path ∧ (w.contents? path).isSome = true := by
  by_cases hName : h.layout.canonicalize name = path
  · cases hRead : w.contents? (h.layout.canonicalize name) with
    | none =>
      rw [addFile_of_unreadable hRead, ← hName, hRead]
      simp
    | some contents =>
      rw [addFile_of_contents hRead, ← hName, hRead]
      dsimp only [addContents]
      rw [SourceCache.get?_add]
      simp
  · rw [get?_addFile_of_ne w isRoot hName]
    simp [hName]

/-- What is recorded once all roots are added. -/
theorem isSome_get?_addRoots (names : List String) (h : Host P N) (w : World) :
    ((h.addRoots w names).cache.get? path).isSome = true ↔
      (h.cache.get? path).isSome = true ∨
        (∃ name ∈ names, h.layout.canonicalize name = path) ∧
          (w.contents? path).isSome = true := by
  induction names generalizing h with
  | nil => simp [addRoots]
  | cons name names ih =>
    have hLayout : (h.addFile w name true).1.layout = h.layout :=
      h.layout_perform (.addFile w name true)
    have hRest := ih (h.addFile w name true).1
    rw [isSome_get?_addFile, hLayout] at hRest
    refine hRest.trans ?_
    rw [List.exists_mem_cons_iff, or_and_right, or_assoc]

/-- Every record is that of a root. -/
def OnlyRoots (h : Host P N) : Prop :=
  ∀ path source, h.cache.get? path = some source → source.isRoot = true

theorem OnlyRoots.addFile (hOnly : h.OnlyRoots) (w : World) (name : String) :
    (h.addFile w name true).1.OnlyRoots := by
  cases hRead : w.contents? (h.layout.canonicalize name) with
  | none => rwa [addFile_of_unreadable hRead]
  | some contents =>
    rw [addFile_of_contents hRead]
    intro path source hGet
    dsimp only [addContents] at hGet
    rw [SourceCache.get?_add] at hGet
    split at hGet
    · cases hGet
      rfl
    · exact hOnly path source hGet

theorem onlyRoots_rooted (h : Host P N) (w : World) : (h.rooted w).OnlyRoots := by
  have hReset : h.reset.OnlyRoots := fun path source hGet => by simp [reset] at hGet
  exact addRoots_preserves (fun _ name hg => hg.addFile w name) h.roots hReset

theorem mem_rootFiles_rooted : path ∈ (h.rooted w).rootFiles ↔ h.IsReadableRoot w path := by
  have hRecorded : ((h.rooted w).cache.get? path).isSome = true ↔ h.IsReadableRoot w path := by
    rw [rooted, isSome_get?_addRoots]
    simp [reset, IsReadableRoot]
  rw [← hRecorded, rootFiles, SourceCache.rootPaths, SourceCache.mem_pathsWhere,
    Option.isSome_iff_exists]
  constructor
  · rintro ⟨source, hGet, -⟩
    exact ⟨source, hGet⟩
  · rintro ⟨source, hGet⟩
    exact ⟨source, hGet, onlyRoots_rooted h w path source hGet⟩

/-- Every record says rightly whether its source belongs to a dependency. -/
def Marked (h : Host P N) : Prop :=
  ∀ path source, h.cache.get? path = some source →
    source.isDependency = Path.isDependencyModule path.text

theorem marked_reset (h : Host P N) : h.reset.Marked :=
  fun path source hGet => by simp [reset] at hGet

theorem Marked.addFile (hMarked : h.Marked) (w : World) (name : String) (isRoot : Bool) :
    (h.addFile w name isRoot).1.Marked := by
  cases hRead : w.contents? (h.layout.canonicalize name) with
  | none => rwa [addFile_of_unreadable hRead]
  | some contents =>
    rw [addFile_of_contents hRead]
    intro path source hGet
    dsimp only [addContents] at hGet
    rw [SourceCache.get?_add] at hGet
    split at hGet
    · rename_i hPath
      cases hGet
      rw [hPath]
    · exact hMarked path source hGet

theorem marked_discovered (h : Host P N) (w : World) : (h.discovered w).Marked := by
  have hRooted : (h.rooted w).Marked :=
    addRoots_preserves (fun _ name hg => hg.addFile w name true) h.roots h.marked_reset
  unfold discovered
  split
  · exact compile_preserves (fun _ name hg => hg.addFile w name false) (fun _ _ _ hg => hg)
      (fun _ _ hg => hg) _ _ hRooted
  · exact hRooted

theorem mem_dependencyModules (hMarked : h.Marked) :
    path ∈ h.dependencyModules ↔
      (h.cache.get? path).isSome = true ∧ Path.isDependencyModule path.text = true := by
  rw [dependencyModules, SourceCache.dependencyPaths, SourceCache.mem_pathsWhere,
    Option.isSome_iff_exists]
  constructor
  · rintro ⟨source, hGet, hDependency⟩
    exact ⟨⟨source, hGet⟩, (hMarked path source hGet).symm.trans hDependency⟩
  · rintro ⟨⟨source, hGet⟩, hDependency⟩
    exact ⟨source, hGet, (hMarked path source hGet).trans hDependency⟩

theorem mem_foundModules : path ∈ h.foundModules w ↔ h.IsFoundModule w path := by
  unfold foundModules IsFoundModule
  split
  · rename_i hTwoPhase
    rw [mem_dependencyModules (marked_discovered h w)]
    simp [hTwoPhase]
  · rename_i hOnePhase
    simp [hOnePhase]

/-! ## What the engine is given to emit -/

/-- The paths that the engine is given to emit. -/
def emissionRoots (h : Host P N) (w : World) : List CanonicalPath :=
  (h.rooted w).rootFiles ++ h.foundModules w

theorem emissionNames_eq (h : Host P N) (w : World) :
    h.emissionNames w = (h.emissionRoots w).map (·.text) := by
  rw [emissionRoots, List.map_append]
  rfl

theorem count_emissionRoots (h : Host P N) (w : World) (path : CanonicalPath) :
    (h.emissionRoots w).count path =
      (if h.IsReadableRoot w path then 1 else 0) + if h.IsFoundModule w path then 1 else 0 := by
  have hRoots : (h.rooted w).rootFiles.Nodup := SourceCache.nodup_pathsWhere _ _
  have hFound : (h.foundModules w).Nodup := by
    unfold foundModules
    split
    · exact SourceCache.nodup_pathsWhere _ _
    · exact List.nodup_nil
  rw [emissionRoots, List.count_append, hRoots.count, hFound.count]
  simp only [mem_rootFiles_rooted, mem_foundModules]

/-- The record of a root outlives the first phase. -/
theorem isSome_get?_discovered_of_root (hRoot : h.IsReadableRoot w path) :
    ((h.discovered w).cache.get? path).isSome = true := by
  have hRooted : path ∈ (h.rooted w).rootFiles := mem_rootFiles_rooted.2 hRoot
  rw [rootFiles, SourceCache.rootPaths, SourceCache.mem_pathsWhere] at hRooted
  obtain ⟨source, hGet, -⟩ := hRooted
  have hCalls : ∀ call ∈ if h.twoPhase then (h.rooted w).compileCalls w (h.rootNames w) .discover
      else [], call.Retains (h.rooted w).layout path := by
    intro call hCall
    split at hCall
    · obtain ⟨q, rfl⟩ := eq_ask_of_mem_compileCalls hCall
      trivial
    · cases hCall
  rw [discovered_eq_performAll, get?_performAll_of_retains rfl hCalls hGet]
  rfl

theorem nodup_emissionRoots_iff :
    (h.emissionRoots w).Nodup ↔
      ¬ (h.twoPhase = true ∧
        ∃ path, h.IsReadableRoot w path ∧ Path.isDependencyModule path.text = true) := by
  rw [List.nodup_iff_count_le_one]
  constructor
  · rintro hOnce ⟨hTwoPhase, path, hRoot, hDependency⟩
    have hFound : h.IsFoundModule w path :=
      ⟨hTwoPhase, isSome_get?_discovered_of_root hRoot, hDependency⟩
    have hCount := hOnce path
    rw [count_emissionRoots, if_pos hRoot, if_pos hFound] at hCount
    omega
  · intro hNone path
    rw [count_emissionRoots]
    by_cases hRoot : h.IsReadableRoot w path
    · have hNotFound : ¬ h.IsFoundModule w path :=
        fun hFound => hNone ⟨hFound.1, path, hRoot, hFound.2.2⟩
      rw [if_pos hRoot, if_neg hNotFound]
    · rw [if_neg hRoot]
      split <;> omega

end Lists

/-- **The roots to emit.**  The last call of the engine in a pass is to emit.  It is given the
paths of the readable roots and of the modules of dependencies that are recorded when the first
phase is over, and no others: each as often as it is one of the two.  So the list is free of
duplicates unless, in a pass of two phases, a readable root lies in a dependency; a pass of one
phase finds no modules. -/
theorem emission_roots_once_iff (h : Host P N) (w : World) :
    (∃ notes, (h.runCompile w).2.phases.getLast? =
      some ⟨.emit, (h.emissionRoots w).map (·.text), notes⟩) ∧
    (∀ path, (h.emissionRoots w).count path =
      (if h.IsReadableRoot w path then 1 else 0) + if h.IsFoundModule w path then 1 else 0) ∧
    ((h.emissionRoots w).Nodup ↔
      ¬ (h.twoPhase = true ∧
        ∃ path, h.IsReadableRoot w path ∧ Path.isDependencyModule path.text = true)) := by
  refine ⟨?_, h.count_emissionRoots w, nodup_emissionRoots_iff⟩
  rw [runCompile_eq]
  dsimp only
  rw [List.getLast?_concat, ← emissionNames_eq]
  exact ⟨_, rfl⟩

/-- The source is recorded as a root, and found again as a module. -/
theorem echo_emits_dependency_root_twice :
    let h := { Host.echo with roots := ["node_modules/m/a.ts"] }
    let w : World := ⟨⟨[(["work"], .directory), (["work", "node_modules"], .directory),
      (["work", "node_modules", "m"], .directory),
      (["work", "node_modules", "m", "a.ts"], .file [97])], []⟩, ⟨[]⟩⟩
    ((h.runCompile w).2.phases.map fun phase => (phase.mode, phase.roots)).getLast? =
      some (.emit, ["/work/node_modules/m/a.ts", "/work/node_modules/m/a.ts"]) ∧
    ¬ (h.emissionRoots w).Nodup := by
  decide +kernel

end CompileHost.Host
