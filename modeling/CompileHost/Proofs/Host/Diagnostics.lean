import CompileHost.Proofs.Host.Records

/-!
# Diagnostics and verdicts

A host keeps its diagnostics twice: as a list, and as a flag that says whether there is an error
among them.  Both change at one place only, in `report`, and are cleared together, so the flag
can never disagree with the list.  What a pass comes to is read off them at its end.

* `failed_eq_of_reachable`: the flag and the list agree, whatever has happened to the host.
* `diagnostics_performAll`: within a generation the list grows by what the calls report, in order.
* `diagnostics_runCompile`: behind a pass the list is what its phases reported.
* `buildFailed_iff_reported`: the verdict of a pass, and what becomes of a failed one.
-/

namespace CompileHost

variable {P N : Type}

theorem Diagnostic.isFatal_iff {d : Diagnostic} : d.isFatal = true ↔ d.severity = .error := by
  simp [isFatal]

theorem Diagnostics.hasErrors_iff {ds : Diagnostics} :
    ds.hasErrors = true ↔ ∃ d ∈ ds, d.severity = .error := by
  simp [hasErrors, Diagnostic.isFatal_iff]

namespace Host

/-- The hosts that there can be.  An engine may remember what happened before, so between two
calls it may come to behave differently. -/
inductive Reachable : Host P N → Prop where
  | built {w : World} {s : Settings} {engine : Engine P N} {roots observers : List String}
      {tools : MarkupTools} {h : Host P N}
      (hBuild : Host.build w s engine roots observers tools = .ok h) : Reachable h
  | called {h : Host P N} (hBefore : Reachable h) (call : Call P) : Reachable (h.perform call)
  | engine {h : Host P N} (hBefore : Reachable h) (engine : Engine P N) :
      Reachable { h with engine }

/-! ## The flag and the list -/

/-- The flag says whether there is an error in the list. -/
def Truthful (h : Host P N) : Prop :=
  h.failed = h.diagnostics.hasErrors

theorem truthful_reset (h : Host P N) : h.reset.Truthful := rfl

theorem Truthful.report {h : Host P N} (hh : h.Truthful) (d : Diagnostic) :
    (h.report d).Truthful := by
  unfold Truthful at hh
  simp [Truthful, Host.report, hh, Diagnostics.hasErrors]

theorem Truthful.addFile {h : Host P N} (hh : h.Truthful) (w : World) (name : String)
    (isRoot : Bool) : (h.addFile w name isRoot).1.Truthful := by
  unfold Host.addFile
  dsimp only
  split
  · exact hh
  · exact hh

theorem Truthful.resolveFile {h : Host P N} (hh : h.Truthful) (w : World) (name : String) :
    (h.resolveFile w name).1.Truthful := by
  rcases h.resolveFile_fst_cases w name with hEq | hEq
  · rwa [hEq]
  · rw [hEq]
    exact hh.addFile w name false

theorem Truthful.answer {h : Host P N} (hh : h.Truthful) (w : World) (q : Query) :
    (answer w h q).1.Truthful := by
  rcases answer_fst_cases w h q with hEq | ⟨name, hEq⟩ | ⟨name, text, hEq⟩ | ⟨d, hEq⟩
  · rwa [hEq]
  · rw [hEq]
    exact hh.addFile w name false
  · rw [hEq]
    exact hh
  · rw [hEq]
    exact hh.report d

/-- A pass clears both at its start, so nothing is asked of the host before it. -/
theorem truthful_runCompile (h : Host P N) (w : World) : (h.runCompile w).1.Truthful :=
  runCompile_preserves (I := Truthful) (fun _ name isRoot hg => hg.addFile w name isRoot)
    (fun _ _ _ hg => hg) (fun _ d hg => hg.report d) (truthful_reset h)

theorem Truthful.perform {h : Host P N} (hh : h.Truthful) (call : Call P) :
    (h.perform call).Truthful := by
  cases call with
  | reset => exact truthful_reset h
  | setRoots roots => exact hh
  | setDefaultLibrary value => exact hh
  | onFile observer => exact hh
  | addFile w name isRoot => exact hh.addFile w name isRoot
  | resolveFile w name => exact hh.resolveFile w name
  | ask w q => exact hh.answer w q
  | renderChanged name render => exact hh
  | runCompile w => exact truthful_runCompile h w

theorem truthful_build {w : World} {s : Settings} {engine : Engine P N}
    {roots observers : List String} {tools : MarkupTools} {h : Host P N}
    (hBuild : Host.build w s engine roots observers tools = .ok h) : h.Truthful := by
  simp only [Host.build, bind, Except.bind, pure, Except.pure] at hBuild
  split at hBuild
  · split at hBuild
    · cases hBuild
    · cases hBuild
      rfl
  · cases hBuild

theorem failed_eq_of_reachable {h : Host P N} (hReachable : h.Reachable) :
    h.failed = h.diagnostics.hasErrors := by
  induction hReachable with
  | built hBuild => exact truthful_build hBuild
  | called _ call ih => exact Truthful.perform ih call
  | engine _ _ ih => exact ih

/-! ## The list and the calls -/

/-- The diagnostic that a question reports, if it does. -/
def reported? : Query → Option Diagnostic
  | .report d => some d
  | _ => none

/-- The diagnostic that a call reports, if it does. -/
def Call.reported? : Call P → Option Diagnostic
  | .ask _ q => Host.reported? q
  | _ => none

/-- A call that goes on with the generation. -/
def Call.Continues : Call P → Prop
  | .reset => False
  | .runCompile _ => False
  | _ => True

theorem diagnostics_addFile (h : Host P N) (w : World) (name : String) (isRoot : Bool) :
    (h.addFile w name isRoot).1.diagnostics = h.diagnostics := by
  unfold addFile
  dsimp only
  split <;> rfl

theorem diagnostics_resolveFile (h : Host P N) (w : World) (name : String) :
    (h.resolveFile w name).1.diagnostics = h.diagnostics := by
  rcases h.resolveFile_fst_cases w name with hEq | hEq
  · rw [hEq]
  · rw [hEq, diagnostics_addFile]

theorem diagnostics_perform {call : Call P} (hCall : call.Continues) (h : Host P N) :
    (h.perform call).diagnostics = h.diagnostics ++ call.reported?.toList := by
  cases call with
  | reset => exact hCall.elim
  | runCompile w => exact hCall.elim
  | addFile w name isRoot =>
    rw [perform, diagnostics_addFile]
    exact (List.append_nil _).symm
  | resolveFile w name =>
    rw [perform, diagnostics_resolveFile]
    exact (List.append_nil _).symm
  | ask w q =>
    cases q with
    | report d => rfl
    | sourceFile name =>
      rw [perform, answer, diagnostics_resolveFile]
      exact (List.append_nil _).symm
    | _ => exact (List.append_nil _).symm
  | _ => exact (List.append_nil _).symm

theorem diagnostics_performAll {calls : List (Call P)} (hCalls : ∀ call ∈ calls, call.Continues)
    (h : Host P N) :
    (h.performAll calls).diagnostics = h.diagnostics ++ calls.filterMap Call.reported? := by
  induction calls generalizing h with
  | nil => exact (List.append_nil _).symm
  | cons call calls ih =>
    have hFirst := diagnostics_perform (hCalls call List.mem_cons_self) h
    have hRest := ih (fun other hOther => hCalls other (List.mem_cons_of_mem call hOther))
      (h.perform call)
    rw [hFirst, List.append_assoc] at hRest
    refine hRest.trans (congrArg (h.diagnostics ++ ·) ?_)
    cases hReported : call.reported? with
    | none => simp [hReported]
    | some d => simp [hReported]

/-! ## The reports of a pass -/

/-- What is reported in one phase: first what the engine reports while it compiles, and then the
diagnostics that it hands back. -/
def phaseReports (h : Host P N) (w : World) (roots : List String) (mode : CompileMode) :
    Diagnostics :=
  (h.exchanges w roots mode).filterMap (fun exchange => reported? exchange.1) ++
    ((h.engine.compile roots mode).run (answer w) h).2.diagnostics

/-- What is reported in a pass, phase by phase. -/
def passReports (h : Host P N) (w : World) : Diagnostics :=
  (if h.twoPhase then (h.rooted w).phaseReports w (h.rootNames w) .discover else []) ++
    (h.discovered w).phaseReports w (h.emissionNames w) .emit

theorem continues_passCalls {h : Host P N} {w : World} :
    ∀ call ∈ h.passCalls w, call.Continues := by
  intro call hCall
  rcases mem_passCalls_cases hCall with ⟨name, -, rfl⟩ | ⟨q, rfl⟩
  · trivial
  · trivial

theorem reported_compileCalls (h : Host P N) (w : World) (roots : List String)
    (mode : CompileMode) :
    (h.compileCalls w roots mode).filterMap Call.reported? = h.phaseReports w roots mode := by
  have hReturned : ∀ ds : Diagnostics,
      (ds.map fun d => (.ask w (.report d) : Call P)).filterMap Call.reported? = ds := by
    intro ds
    rw [List.filterMap_map]
    exact List.filterMap_some
  rw [compileCalls, List.filterMap_append, hReturned, List.filterMap_map]
  rfl

theorem reported_passCalls (h : Host P N) (w : World) :
    (h.passCalls w).filterMap Call.reported? = h.passReports w := by
  have hRoots : (h.roots.map fun name => (.addFile w name true : Call P)).filterMap
      Call.reported? = [] := by
    rw [List.filterMap_map]
    exact List.filterMap_eq_nil_iff.2 fun _ _ => rfl
  rw [passCalls, List.filterMap_append, List.filterMap_append, hRoots, List.nil_append,
    reported_compileCalls, passReports]
  congr 1
  split
  · exact reported_compileCalls _ w _ .discover
  · rfl

theorem diagnostics_runCompile (h : Host P N) (w : World) :
    (h.runCompile w).1.diagnostics = h.passReports w := by
  rw [runCompile_fst_eq_performAll, diagnostics_performAll continues_passCalls,
    reported_passCalls]
  rfl

theorem failed_runCompile (h : Host P N) (w : World) :
    (h.runCompile w).1.failed = (h.passReports w).hasErrors := by
  have hTruthful : (h.runCompile w).1.Truthful := truthful_runCompile h w
  rw [hTruthful, diagnostics_runCompile]

/-- The result of a pass is read off its reports. -/
theorem result_runCompile (h : Host P N) (w : World) :
    (h.runCompile w).2.result =
      if (h.passReports w).hasErrors then .error (.buildFailed (h.passReports w))
      else .ok ⟨(h.runCompile w).1.cache.generation, (h.rooted w).rootFiles, h.foundModules w,
        h.passReports w⟩ := by
  have hResult : (h.runCompile w).2.result =
      (h.runCompile w).1.passResult (h.rooted w).rootFiles (h.foundModules w) := by
    rw [runCompile_eq]
  rw [hResult, passResult, failed_runCompile, diagnostics_runCompile]

/-! ## What was emitted -/

/-- What is kept behind a pass for an emitted file, under each of its paths, unless a later
emission in the pass reached that path. -/
theorem get?_runCompile_of_emitted {h : Host P N} {w : World} {earlier later : List (Call P)}
    {name text : String}
    (hPass : h.passCalls w = earlier ++ .ask w (.emitText name text) :: later)
    {path : CanonicalPath} (hPath : path ∈ OutputStore.writtenPaths h.layout w.tree name)
    (hLater : ∀ call ∈ later, call.Spares h.layout path) :
    (h.runCompile w).1.store.get? path =
      some (Reference.resolveAll w.tree
        (Path.dirname (h.layout.toSource (h.layout.canonicalize name).text).text) text) := by
  have hBefore : (h.reset.performAll earlier).layout = h.layout :=
    layout_performAll h.reset earlier
  have hEmitted : ((h.reset.performAll earlier).emitText w name text).layout = h.layout := hBefore
  rw [runCompile_fst_eq_performAll, hPass, performAll_append]
  refine (get?_performAll_of_spares hEmitted hLater).trans ?_
  rw [← hBefore] at hPath
  rw [emitText, OutputStore.get?_write_of_mem hPath, hBefore]

/-! ## The verdict -/

/-- **The verdict of a pass.**  The flag of a host says whether there is an error among its
diagnostics.  A pass fails exactly if an error is reported in it, and its diagnostics, whatever it
comes to, are those reported in it, in order.  What it emitted and recorded is not taken back:
under each path of an emitted file stands the text of the last emission, and it stays there, as
records do, until it is replaced or a generation starts.  The start of a generation clears the flag
and the diagnostics. -/
theorem Reachable.buildFailed_iff_reported {h : Host P N} (hReachable : h.Reachable) :
    (h.failed = true ↔ ∃ d ∈ h.diagnostics, d.severity = .error) ∧
    ∀ w,
      let after := (h.runCompile w).1
      let result := (h.runCompile w).2.result
      ((∃ ds, result = .error (.buildFailed ds)) ↔
        ∃ d ∈ h.passReports w, d.severity = .error) ∧
      (∀ e, result = .error e → e = .buildFailed (h.passReports w)) ∧
      (∀ s, result = .ok s → s.diagnostics = h.passReports w) ∧
      after.diagnostics = h.passReports w ∧
      (∀ earlier name text later,
        h.passCalls w = earlier ++ .ask w (.emitText name text) :: later →
        ∀ path ∈ OutputStore.writtenPaths h.layout w.tree name,
          (∀ call ∈ later, call.Spares h.layout path) →
          after.store.get? path = some (Reference.resolveAll w.tree
            (Path.dirname (h.layout.toSource (h.layout.canonicalize name).text).text) text)) ∧
      ∀ calls,
        (∀ path, (∀ call ∈ calls, call.Spares h.layout path) →
          (after.performAll calls).store.get? path = after.store.get? path) ∧
        (∀ path source, after.cache.get? path = some source →
          (∀ call ∈ calls, call.Retains h.layout path) →
          (after.performAll calls).cache.get? path = some source) ∧
        (after.performAll calls).reset.failed = false ∧
        (after.performAll calls).reset.diagnostics = [] := by
  constructor
  · rw [failed_eq_of_reachable hReachable, Diagnostics.hasErrors_iff]
  intro w after result
  have hResult : result = _ := h.result_runCompile w
  have hLayout : after.layout = h.layout :=
    congrArg Prod.fst (outlet_of_bare (bare_runCompile h w))
  refine ⟨?_, ?_, ?_, h.diagnostics_runCompile w, ?_, ?_⟩
  · rw [← Diagnostics.hasErrors_iff, hResult]
    split
    · rename_i hErrors
      exact ⟨fun _ => hErrors, fun _ => ⟨_, rfl⟩⟩
    · rename_i hNone
      refine ⟨?_, fun hErrors => absurd hErrors hNone⟩
      rintro ⟨ds, hOk⟩
      cases hOk
  · intro e hError
    rw [hResult] at hError
    split at hError
    · exact (Except.error.inj hError).symm
    · cases hError
  · intro s hOk
    rw [hResult] at hOk
    split at hOk
    · cases hOk
    · cases hOk
      rfl
  · intro earlier name text later hPass path hPath hLater
    exact get?_runCompile_of_emitted hPass hPath hLater
  · intro calls
    refine ⟨?_, ?_, rfl, rfl⟩
    · intro path hCalls
      exact get?_performAll_of_spares hLayout hCalls
    · intro path source hGet hCalls
      exact get?_performAll_of_retains hLayout hCalls hGet

end Host

/-- Reports an error while it compiles, emits a text all the same, and hands back a warning. -/
def Engine.faulty : Engine String Unit where
  parse _ text _ := text
  libraryDirectory := "/lib"
  defaultLibraryName _ := "lib.d.ts"
  needsDependencyRoots := false
  compile _ _ :=
    .ask (.report ⟨.error, none, none, "bad"⟩) fun _ =>
      .ask (.emitText "dist/a" "a") fun _ => .done ⟨[⟨.warning, none, none, "odd"⟩], ()⟩

/-- The text that was emitted stays behind a pass that fails, also when roots are set anew. -/
theorem Host.buildFailed_faulty :
    let w : World := ⟨⟨[], []⟩, ⟨[]⟩⟩
    let s : Settings := {
      currentDirectory := "/", sourceDirectory := "src", outputDirectory := "dist"
      hotReload := false, caseSensitive := some true }
    let error : Diagnostic := ⟨.error, none, none, "bad"⟩
    let warning : Diagnostic := ⟨.warning, none, none, "odd"⟩
    ∃ h, Host.build w s .faulty [] [] .basic = .ok h ∧ h.Reachable ∧
      (h.runCompile w).2.result = .error (.buildFailed [error, warning]) ∧
      ((h.runCompile w).1.performAll [.setRoots ["src/b"]]).store.get? ⟨"/dist/a"⟩ = some "a" := by
  intro w s error warning
  have hReachable := @Reachable.built _ _ w s .faulty [] [] .basic _ rfl
  obtain ⟨-, hPasses⟩ := Reachable.buildFailed_iff_reported hReachable
  obtain ⟨hFails, hError, -, -, hEmitted, hStays⟩ := hPasses w
  refine ⟨_, rfl, hReachable, ?_, ?_⟩
  · obtain ⟨ds, hFailed⟩ := hFails.2 ⟨error, List.mem_cons_self, rfl⟩
    exact hFailed.trans (congrArg _ (hError _ hFailed))
  · have hText := hEmitted [.ask w (.report error)] "dist/a" "a" [.ask w (.report warning)] rfl
      ⟨"/dist/a"⟩ (by decide +kernel) (by simp [Call.Spares])
    have hKept := (hStays [.setRoots ["src/b"]]).1 ⟨"/dist/a"⟩ (by simp [Call.Spares])
    exact hKept.trans (hText.trans (by decide +kernel))

end CompileHost
