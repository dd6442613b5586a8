import CompileHost.Proofs.Host.Snapshot

/-!
# Who is a root

A source is a root if its last addition was that of a root.  The engine cannot add files, it can
only ask for them, and a source that is on record is not added again; so in a pass the roots are
settled before the engine is called, and what it asks for merely joins the observed files.

A user can add a file once more, and then the new flag counts (`root_stays_iff`).  A root that is
added again as no root is one no more, though it was requested as one (`root_lost_when_added_again`).

* `mem_rootFiles_performAll`: the roots behind any calls within a generation.
* `isSome_get?_performAll`: what is on record behind them.
* `roots_of_pass`: both for passes.
-/

namespace CompileHost.Host

variable {P N : Type}

theorem mem_rootFiles {h : Host P N} {path : CanonicalPath} :
    path ∈ h.rootFiles ↔ ∃ source, h.cache.get? path = some source ∧ source.isRoot = true :=
  SourceCache.mem_pathsWhere

/-! ## The last flag counts -/

/-- Whether a call adds a file as a root or not, if it does add it. -/
def Call.rootFlag? (l : Layout) (path : CanonicalPath) : Call P → Option Bool
  | .addFile w name isRoot =>
    if l.canonicalize name = path ∧ (w.contents? path).isSome then some isRoot else none
  | _ => none

section Flags

variable {h : Host P N} {path : CanonicalPath}

theorem mem_rootFiles_addFile (w : World) (name : String) (isRoot : Bool) :
    path ∈ (h.addFile w name isRoot).1.rootFiles ↔
      if h.layout.canonicalize name = path ∧ (w.contents? path).isSome = true then isRoot = true
      else path ∈ h.rootFiles := by
  by_cases hName : h.layout.canonicalize name = path
  · subst hName
    cases hRead : w.contents? (h.layout.canonicalize name) with
    | none =>
      rw [addFile_of_unreadable hRead]
      simp
    | some contents =>
      rw [addFile_of_contents hRead, mem_rootFiles]
      dsimp only [addContents]
      rw [SourceCache.get?_add]
      simp
  · rw [mem_rootFiles, get?_addFile_of_ne w isRoot hName, if_neg (hName ·.1), mem_rootFiles]

/-- A file that is added at a request is no root, and was none, since it was not on record. -/
theorem mem_rootFiles_resolveFile (w : World) (name : String) :
    path ∈ (h.resolveFile w name).1.rootFiles ↔ path ∈ h.rootFiles := by
  rcases h.resolveFile_cases w name with ⟨-, hEq⟩ | ⟨-, ⟨source, -, hEq⟩ | ⟨hNone, hEq⟩⟩
  · rw [hEq]
  · rw [hEq]
  · rw [hEq, mem_rootFiles_addFile]
    split
    · rename_i hHere
      rw [mem_rootFiles, ← hHere.1, hNone]
      simp
    · rfl

theorem mem_rootFiles_perform {call : Call P} (hCall : call.Continues) :
    path ∈ (h.perform call).rootFiles ↔
      (call.rootFlag? h.layout path).elim (path ∈ h.rootFiles) (· = true) := by
  cases call with
  | reset => exact hCall.elim
  | runCompile w => exact hCall.elim
  | addFile w name isRoot =>
    rw [perform, mem_rootFiles_addFile, Call.rootFlag?]
    split <;> rfl
  | resolveFile w name => exact mem_rootFiles_resolveFile w name
  | ask w q =>
    cases q with
    | sourceFile name => exact mem_rootFiles_resolveFile w name
    | _ => exact Iff.rfl
  | _ => exact Iff.rfl

/-- Within a generation the last addition of a file says whether it is a root. -/
theorem mem_rootFiles_performAll {calls : List (Call P)}
    (hCalls : ∀ call ∈ calls, call.Continues) :
    path ∈ (h.performAll calls).rootFiles ↔
      (calls.filterMap (Call.rootFlag? h.layout path)).getLast?.elim (path ∈ h.rootFiles)
        (· = true) := by
  induction calls generalizing h with
  | nil => exact Iff.rfl
  | cons call calls ih =>
    have hFirst : path ∈ (h.perform call).rootFiles ↔ _ :=
      mem_rootFiles_perform (hCalls call List.mem_cons_self)
    have hRest := ih (h := h.perform call)
      fun other hOther => hCalls other (List.mem_cons_of_mem call hOther)
    rw [layout_perform] at hRest
    refine hRest.trans ?_
    cases hFlag : call.rootFlag? h.layout path with
    | none =>
      rw [hFlag] at hFirst
      rw [List.filterMap_cons_none hFlag, hFirst]
      rfl
    -- the flag of the first call counts if no later one is given
    | some isRoot =>
      rw [hFlag] at hFirst
      rw [List.filterMap_cons_some hFlag, List.getLast?_cons, hFirst]
      cases (calls.filterMap (Call.rootFlag? h.layout path)).getLast? <;> rfl

/-- If nothing adds a file as no root, it is a root once it has been added as one. -/
theorem mem_rootFiles_performAll_of_ne_false {calls : List (Call P)}
    (hCalls : ∀ call ∈ calls, call.Continues)
    (hFlags : ∀ call ∈ calls, call.rootFlag? h.layout path ≠ some false) :
    path ∈ (h.performAll calls).rootFiles ↔
      path ∈ h.rootFiles ∨ ∃ call ∈ calls, call.rootFlag? h.layout path = some true := by
  rw [mem_rootFiles_performAll hCalls]
  cases hLast : (calls.filterMap (Call.rootFlag? h.layout path)).getLast? with
  | none =>
    rw [List.getLast?_eq_none_iff, List.filterMap_eq_nil_iff] at hLast
    refine ⟨Or.inl, fun hOr => hOr.resolve_right ?_⟩
    rintro ⟨call, hCall, hFlag⟩
    rw [hLast call hCall] at hFlag
    cases hFlag
  | some isRoot =>
    obtain ⟨call, hCall, hFlag⟩ := List.mem_filterMap.1 (List.mem_of_getLast? hLast)
    cases isRoot with
    | false => exact absurd hFlag (hFlags call hCall)
    | true => exact ⟨fun _ => Or.inr ⟨call, hCall, hFlag⟩, fun _ => rfl⟩

end Flags

/-- **When a root stays one.**  A file that has been added as a root is a root at any later time in
the generation, unless the last addition of the same path since then, by whatever spelling, was not
that of a root.  Requests, also those of the engine, and changes of the file tree have no part in
it. -/
theorem root_stays_iff {h : Host P N} {w : World} {name : String}
    (hAdded : (h.addFile w name true).2.isSome = true) {calls : List (Call P)}
    (hCalls : ∀ call ∈ calls, call.Continues) :
    let path := h.layout.canonicalize name
    path ∈ ((h.addFile w name true).1.performAll calls).rootFiles ↔
      (calls.filterMap (Call.rootFlag? h.layout path)).getLast? ≠ some false := by
  intro path
  have hReadable : (w.contents? path).isSome = true := by
    cases hRead : w.contents? path with
    | none =>
      rw [addFile_of_unreadable hRead] at hAdded
      cases hAdded
    | some contents => rfl
  have hRoot : path ∈ (h.addFile w name true).1.rootFiles := by
    rw [mem_rootFiles_addFile, if_pos ⟨rfl, hReadable⟩]
  have hLayout : (h.addFile w name true).1.layout = h.layout :=
    h.layout_perform (.addFile w name true)
  rw [mem_rootFiles_performAll hCalls, hLayout]
  cases (calls.filterMap (Call.rootFlag? h.layout path)).getLast? with
  | none => simp [hRoot]
  | some isRoot => cases isRoot <;> simp

/-- Between its additions as a root the file is added as no root, and asked for. -/
theorem root_stays_iff_added_back :
    let w := World.ofSources [("a.ts", [97])]
    let changed := World.ofSources [("a.ts", [98])]
    let calls : List (Call String) := [.addFile changed "src/a.ts" false,
      .ask changed (.sourceFile "/work/src/a.ts"), .addFile w "./src/a.ts" true,
      .resolveFile changed "src/a.ts"]
    (Host.echo.addFile w "src/a.ts" true).2.isSome = true ∧
    (∀ call ∈ calls, call.Continues) ∧
    Host.echo.layout.canonicalize "src/a.ts" ∈
      ((Host.echo.addFile w "src/a.ts" true).1.performAll calls).rootFiles := by
  intro w changed calls
  have hAdded : (Host.echo.addFile w "src/a.ts" true).2.isSome = true := by decide +kernel
  have hCalls : ∀ call ∈ calls, call.Continues := by simp [calls, Call.Continues]
  exact ⟨hAdded, hCalls, (root_stays_iff hAdded hCalls).2 (by decide +kernel)⟩

/-- The file was requested as a root in this generation, and is no root. -/
theorem root_lost_when_added_again :
    let w := World.ofSources [("a.ts", [97])]
    let added := Host.echo.addFile w "src/a.ts" true
    added.2.isSome = true ∧ Host.echo.layout.canonicalize "src/a.ts" ∈ added.1.rootFiles ∧
    Host.echo.layout.canonicalize "src/a.ts" ∉
      (added.1.performAll [.addFile w "src/a.ts" false]).rootFiles := by
  decide +kernel

/-! ## What is on record -/

/-- A call that leads the host to a file, which is there to be read. -/
def Call.Reads (l : Layout) (path : CanonicalPath) : Call P → Prop
  | .addFile w name _ => l.canonicalize name = path ∧ (w.contents? path).isSome = true
  | .resolveFile w name => name ≠ defaultLibraryFile ∧ l.canonicalize name = path ∧
      (w.contents? path).isSome = true
  | .ask w (.sourceFile name) => name ≠ defaultLibraryFile ∧ l.canonicalize name = path ∧
      (w.contents? path).isSome = true
  | _ => False

section Records

variable {h : Host P N} {path : CanonicalPath}

theorem mem_observedFiles :
    path ∈ h.observedFiles ↔ (h.cache.get? path).isSome = true :=
  SourceCache.mem_observedPaths

theorem isSome_get?_resolveFile (w : World) (name : String) :
    ((h.resolveFile w name).1.cache.get? path).isSome = true ↔
      (h.cache.get? path).isSome = true ∨
        name ≠ defaultLibraryFile ∧ h.layout.canonicalize name = path ∧
          (w.contents? path).isSome = true := by
  rcases h.resolveFile_cases w name with ⟨hName, hEq⟩ | ⟨hName, ⟨source, hGet, hEq⟩ | ⟨-, hEq⟩⟩
  · rw [hEq]
    simp [hName]
  · rw [hEq]
    refine ⟨Or.inl, ?_⟩
    rintro (hKnown | ⟨-, rfl, -⟩)
    · exact hKnown
    · rw [hGet]
      rfl
  · rw [hEq, isSome_get?_addFile]
    simp [hName]

theorem isSome_get?_perform {call : Call P} (hCall : call.Continues) :
    ((h.perform call).cache.get? path).isSome = true ↔
      (h.cache.get? path).isSome = true ∨ call.Reads h.layout path := by
  cases call with
  | reset => exact hCall.elim
  | runCompile w => exact hCall.elim
  | addFile w name isRoot => exact isSome_get?_addFile h w name isRoot
  | resolveFile w name => exact isSome_get?_resolveFile w name
  | ask w q =>
    cases q with
    | sourceFile name => exact isSome_get?_resolveFile w name
    | _ => exact (or_false _).to_iff.symm
  | _ => exact (or_false _).to_iff.symm

/-- Within a generation records come by reading files, and stay. -/
theorem isSome_get?_performAll {calls : List (Call P)} (hCalls : ∀ call ∈ calls, call.Continues) :
    ((h.performAll calls).cache.get? path).isSome = true ↔
      (h.cache.get? path).isSome = true ∨ ∃ call ∈ calls, call.Reads h.layout path := by
  induction calls generalizing h with
  | nil => simp [performAll]
  | cons call calls ih =>
    have hFirst : ((h.perform call).cache.get? path).isSome = true ↔ _ :=
      isSome_get?_perform (hCalls call List.mem_cons_self)
    have hRest := ih (h := h.perform call)
      fun other hOther => hCalls other (List.mem_cons_of_mem call hOther)
    rw [layout_perform, hFirst] at hRest
    refine hRest.trans ?_
    rw [List.exists_mem_cons_iff, or_assoc]

end Records

/-! ## Passes -/

section Passes

variable {h : Host P N} {w : World} {path : CanonicalPath} {name : String}

/-- A file that the engine asks for in a pass, other than by the name of the default library. -/
def IsAskedFor (h : Host P N) (w : World) (path : CanonicalPath) : Prop :=
  ∃ phase ∈ h.passExchanges w, ∃ exchange ∈ phase, ∃ name,
    exchange.1 = .sourceFile name ∧ name ≠ defaultLibraryFile ∧ h.layout.canonicalize name = path

theorem sourceFile_mem_compileCalls {roots : List String} {mode : CompileMode} :
    .ask w (.sourceFile name) ∈ h.compileCalls w roots mode ↔
      ∃ exchange ∈ h.exchanges w roots mode, exchange.1 = .sourceFile name := by
  simp [compileCalls]

theorem sourceFile_mem_passCalls :
    .ask w (.sourceFile name) ∈ h.passCalls w ↔
      ∃ phase ∈ h.passExchanges w, ∃ exchange ∈ phase, exchange.1 = .sourceFile name := by
  unfold passCalls passExchanges
  cases h.twoPhase <;> simp [sourceFile_mem_compileCalls]

theorem addFile_mem_passCalls (hName : name ∈ h.roots) :
    .addFile w name true ∈ h.passCalls w :=
  List.mem_append_left _ (List.mem_append_left _ (List.mem_map_of_mem hName))

/-- In a pass nothing is added as a root but the files given as roots, and nothing as no root. -/
theorem isReadableRoot_of_rootFlag? {call : Call P} (hCall : call ∈ h.passCalls w) {isRoot : Bool}
    (hFlag : call.rootFlag? h.layout path = some isRoot) :
    isRoot = true ∧ h.IsReadableRoot w path := by
  rcases mem_passCalls_cases hCall with ⟨name, hName, rfl⟩ | ⟨q, rfl⟩
  · rw [Call.rootFlag?] at hFlag
    split at hFlag
    · rename_i hHere
      exact ⟨(Option.some.inj hFlag).symm, ⟨name, hName, hHere.1⟩, hHere.2⟩
    · cases hFlag
  · cases hFlag

theorem mem_rootFiles_reset : ¬ path ∈ h.reset.rootFiles := by
  simp [mem_rootFiles, reset]

/-- The roots at any time in a pass. -/
theorem mem_rootFiles_of_passCalls {earlier later : List (Call P)}
    (hPass : h.passCalls w = earlier ++ later) :
    path ∈ (h.reset.performAll earlier).rootFiles ↔
      ∃ call ∈ earlier, call.rootFlag? h.layout path = some true := by
  have hMem : ∀ call ∈ earlier, call ∈ h.passCalls w :=
    fun call hCall => hPass ▸ List.mem_append_left later hCall
  have hContinues : ∀ call ∈ earlier, call.Continues :=
    fun call hCall => continues_passCalls call (hMem call hCall)
  have hFlags : ∀ call ∈ earlier, call.rootFlag? h.layout path ≠ some false := by
    intro call hCall hFlag
    cases (isReadableRoot_of_rootFlag? (hMem call hCall) hFlag).1
  have hRoots := mem_rootFiles_performAll_of_ne_false (h := h.reset) hContinues hFlags
  exact hRoots.trans (or_iff_right mem_rootFiles_reset)

theorem mem_rootFiles_runCompile :
    path ∈ (h.runCompile w).1.rootFiles ↔ h.IsReadableRoot w path := by
  rw [runCompile_fst_eq_performAll, mem_rootFiles_of_passCalls (List.append_nil _).symm]
  constructor
  · rintro ⟨call, hCall, hFlag⟩
    exact (isReadableRoot_of_rootFlag? hCall hFlag).2
  · rintro ⟨⟨name, hName, hPath⟩, hRead⟩
    exact ⟨_, addFile_mem_passCalls hName, if_pos ⟨hPath, hRead⟩⟩

/-- What the engine is called with at first is what is left at the end. -/
theorem rootFiles_runCompile (h : Host P N) (w : World) :
    (h.runCompile w).1.rootFiles = (h.rooted w).rootFiles := by
  refine SourceCache.pathsWhere_congr fun path => ?_
  rw [← mem_rootFiles, ← mem_rootFiles, mem_rootFiles_runCompile, mem_rootFiles_rooted]

theorem mem_observedFiles_runCompile :
    path ∈ (h.runCompile w).1.observedFiles ↔
      h.IsReadableRoot w path ∨ h.IsAskedFor w path ∧ (w.contents? path).isSome = true := by
  have hStart : ¬ (h.reset.cache.get? path).isSome = true := by simp [reset]
  rw [mem_observedFiles, runCompile_fst_eq_performAll, isSome_get?_performAll continues_passCalls,
    or_iff_right hStart]
  constructor
  · rintro ⟨call, hCall, hReads⟩
    rcases mem_passCalls_cases hCall with ⟨name, hName, rfl⟩ | ⟨q, rfl⟩
    · exact Or.inl ⟨⟨name, hName, hReads.1⟩, hReads.2⟩
    · cases q with
      | sourceFile name =>
        obtain ⟨phase, hPhase, exchange, hExchange, hQuery⟩ := sourceFile_mem_passCalls.1 hCall
        obtain ⟨hName, hPath, hRead⟩ := hReads
        exact Or.inr ⟨⟨phase, hPhase, exchange, hExchange, name, hQuery, hName, hPath⟩, hRead⟩
      | _ => exact hReads.elim
  · rintro (⟨⟨name, hName, hPath⟩, hRead⟩ |
      ⟨⟨phase, hPhase, exchange, hExchange, name, hQuery, hName, hPath⟩, hRead⟩)
    · exact ⟨_, addFile_mem_passCalls hName, hPath, hRead⟩
    · exact ⟨_, sourceFile_mem_passCalls.2 ⟨phase, hPhase, exchange, hExchange, hQuery⟩, hName,
        hPath, hRead⟩

end Passes

/-- **The roots of a pass.**  Whatever the engine does, behind a pass the roots are the paths of the
readable files that were given as roots, in ascending order and each once; a pass that does not fail
reports just these.  The observed files, ascending and each once, are the roots and what the engine
has asked for and could be read.  And at no time in the pass is another file a root. -/
theorem roots_of_pass (h : Host P N) (w : World) :
    let after := (h.runCompile w).1
    (after.rootFiles.Pairwise fun a b => compare a b = .lt) ∧
    (∀ path, path ∈ after.rootFiles ↔ h.IsReadableRoot w path) ∧
    (∀ s, (h.runCompile w).2.result = .ok s → s.roots = after.rootFiles) ∧
    (after.observedFiles.Pairwise fun a b => compare a b = .lt) ∧
    (∀ path, path ∈ after.observedFiles ↔
      path ∈ after.rootFiles ∨ h.IsAskedFor w path ∧ (w.contents? path).isSome = true) ∧
    ∀ earlier later, h.passCalls w = earlier ++ later →
      ∀ path ∈ (h.reset.performAll earlier).rootFiles, h.IsReadableRoot w path := by
  intro after
  refine ⟨SourceCache.pairwise_pathsWhere _ _, fun path => mem_rootFiles_runCompile, ?_,
    SourceCache.pairwise_pathsWhere _ fun _ => true, ?_, ?_⟩
  · intro s hOk
    rw [result_runCompile] at hOk
    split at hOk
    · cases hOk
    · cases hOk
      exact (h.rootFiles_runCompile w).symm
  · intro path
    rw [mem_rootFiles_runCompile]
    exact mem_observedFiles_runCompile
  · intro earlier later hPass path hRoot
    obtain ⟨call, hCall, hFlag⟩ := (mem_rootFiles_of_passCalls hPass).1 hRoot
    have hMem : call ∈ h.passCalls w := hPass ▸ List.mem_append_left later hCall
    exact (isReadableRoot_of_rootFlag? hMem hFlag).2

/-- One root by two spellings, one that is missing, and an engine that asks for another file. -/
theorem roots_of_pass_asked_for :
    let engine : Engine String Unit := { Engine.echo with
      compile := fun _ _ => .ask (.sourceFile "src/b.ts") fun _ => .done ⟨[], ()⟩ }
    let h := { Host.echo with
      engine, roots := ["src/a.ts", "./src/a.ts", "src/missing.ts"] }
    let w := World.ofSources [("a.ts", [97]), ("b.ts", [98])]
    let s : PassSummary := ⟨1, [⟨"/work/src/a.ts"⟩], [], []⟩
    (h.runCompile w).2.result = .ok s ∧ s.roots = (h.runCompile w).1.rootFiles ∧
    h.passCalls w = [.addFile w "src/a.ts" true] ++ (h.passCalls w).tail ∧
    (∀ path ∈ (h.reset.performAll [.addFile w "src/a.ts" true]).rootFiles,
      h.IsReadableRoot w path) ∧
    ⟨"/work/src/b.ts"⟩ ∈ (h.runCompile w).1.observedFiles := by
  intro engine h w s
  obtain ⟨-, -, hSummary, -, hObserved, hAlways⟩ := roots_of_pass h w
  have hSome : (h.runCompile w).2.result.toOption = some s := by decide +kernel
  have hOk : (h.runCompile w).2.result = .ok s := by
    cases hResult : (h.runCompile w).2.result with
    | error e =>
      rw [hResult] at hSome
      cases hSome
    | ok summary =>
      rw [hResult] at hSome
      rw [Option.some.inj hSome]
  have hCalls : h.passCalls w = [.addFile w "src/a.ts" true] ++ (h.passCalls w).tail := rfl
  have hEngine : (h.discovered w).engine = engine := engine_of_bare (h.bare_discovered w)
  have hAsked : h.IsAskedFor w ⟨"/work/src/b.ts"⟩ := by
    refine ⟨_, List.mem_append_right _ (List.mem_singleton.2 rfl), ?_⟩
    rw [exchanges, hEngine]
    exact ⟨_, List.mem_cons_self, "src/b.ts", rfl, by decide, by decide +kernel⟩
  exact ⟨hOk, hSummary s hOk, hCalls, hAlways _ _ hCalls,
    (hObserved _).2 (Or.inr ⟨hAsked, by decide +kernel⟩)⟩

end CompileHost.Host
