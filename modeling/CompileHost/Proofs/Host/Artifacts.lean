import CompileHost.Proofs.Host.Incremental
import CompileHost.Proofs.FileTree.Names
import CompileHost.Proofs.Path.Layout
import CompileHost.Proofs.Store.History

/-!
# From emission to request

An engine emits a file under some name in the output tree, and the file is asked for by the path of
its source.  On the way in the references of the text start from the directory of the source; on
the way out the bootstrap of hot reload is put in.  The two ways meet at one path, because the maps
between the source tree and the output tree undo each other.  An emission writes to the store, so it
is one of which the walk along the links of the source ends.

* `proper_build`: the layout of a host that has been built is proper.
* `requestArtifact_performAll`: calls that do not reach a file leave what is handed out for it.
* `requestArtifact_emitText`: what is handed out for a file that has been emitted.
* `requestArtifact_runCompile`: the same behind a pass, in the course of which it was emitted.
-/

namespace CompileHost

variable {P N : Type} {output source : CanonicalPath}

/-- The bootstrap goes into every module but declarations and what is excluded by its name. -/
theorem HotReloader.applies_iff {reloader : HotReloader} {name : String} :
    reloader.applies output name = true ↔
      ¬ (".d.ts".toList <:+ output.text.toList ∨ reloader.exclusion.isMatch name = true) := by
  rw [applies, Bool.and_eq_true, Bool.not_eq_true', Bool.not_eq_true', ← Bool.not_eq_true,
    ← Bool.not_eq_true, List.isSuffixOf_iff_suffix, not_or]

theorem ArtifactProcessor.injectHotReload_eq (a : ArtifactProcessor) (text : String)
    (output : CanonicalPath) (name : String) (source : CanonicalPath) :
    a.injectHotReload text output name source =
      match a.hotReload with
      | none => text
      | some reloader =>
        if ".d.ts".toList <:+ output.text.toList ∨ reloader.exclusion.isMatch name = true then text
        else HotReload.splice text (reloader.snippet (HotReload.componentId source)) := by
  unfold injectHotReload
  cases a.hotReload with
  | none => rfl
  | some reloader =>
    simp only [HotReloader.applies_iff, HotReloader.inject]
    rw [ite_not]

namespace Host

/-! ## Layouts of hosts -/

theorem proper_build {w : World} {s : Settings} {engine : Engine P N}
    {roots observers : List String} {tools : MarkupTools} {h : Host P N}
    (hBuild : Host.build w s engine roots observers tools = .ok h) : h.layout.Proper := by
  obtain ⟨-, directory, caseSensitive, hLayout⟩ := of_build hBuild
  rw [hLayout]
  exact Layout.proper_of (FileTree.isAbsolute_placePath _) directory caseSensitive _ _

/-! ## What files are handed out by -/

/-- What a host hands out files by, apart from the texts that it keeps. -/
def outlet (h : Host P N) : Layout × Option HotReloader :=
  (h.layout, h.processor.hotReload)

theorem outlet_of_bare {a b : Host P N} (h : a.bare = b.bare) : a.outlet = b.outlet :=
  show a.bare.outlet = b.bare.outlet by rw [h]

theorem outlet_perform (h : Host P N) (call : Call P) : (h.perform call).outlet = h.outlet := by
  cases call with
  | addFile w name isRoot => exact outlet_of_bare (bare_addFile h w name isRoot)
  | resolveFile w name => exact outlet_of_bare (bare_resolveFile h w name)
  | ask w q => exact outlet_of_bare (bare_answer w h q)
  | runCompile w => exact outlet_of_bare (bare_runCompile h w)
  | _ => rfl

theorem layout_perform (h : Host P N) (call : Call P) : (h.perform call).layout = h.layout :=
  congrArg Prod.fst (h.outlet_perform call)

theorem outlet_performAll (h : Host P N) (calls : List (Call P)) :
    (h.performAll calls).outlet = h.outlet := by
  induction calls generalizing h with
  | nil => rfl
  | cons call calls ih => exact (ih (h.perform call)).trans (h.outlet_perform call)

@[simp]
theorem layout_performAll (h : Host P N) (calls : List (Call P)) :
    (h.performAll calls).layout = h.layout :=
  congrArg Prod.fst (h.outlet_performAll calls)

@[simp]
theorem hotReload_performAll (h : Host P N) (calls : List (Call P)) :
    (h.performAll calls).processor.hotReload = h.processor.hotReload :=
  congrArg Prod.snd (h.outlet_performAll calls)

/-! ## Calls that do not reach a file -/

/-- A call that does not reach what is kept under an output path: no start of a generation, and no
emission of a file that has this path for one of its names. -/
def Call.Spares (l : Layout) (output : CanonicalPath) : Call P → Prop
  | .reset => False
  | .runCompile _ => False
  | .ask w (.emitText name _) => output ∉ OutputStore.writtenPaths l w.tree name
  | _ => True

@[simp]
theorem store_addFile (h : Host P N) (w : World) (name : String) (isRoot : Bool) :
    (h.addFile w name isRoot).1.store = h.store := by
  unfold addFile
  dsimp only
  split <;> rfl

@[simp]
theorem store_resolveFile (h : Host P N) (w : World) (name : String) :
    (h.resolveFile w name).1.store = h.store := by
  rcases h.resolveFile_fst_cases w name with hEq | hEq
  · rw [hEq]
  · rw [hEq, store_addFile]

section Emission

variable {h : Host P N} {l : Layout} {calls : List (Call P)} {name logical : String}

theorem get?_perform_of_spares (hLayout : h.layout = l) {call : Call P}
    (hSpares : call.Spares l output) :
    (h.perform call).store.get? output = h.store.get? output := by
  subst hLayout
  cases call with
  | reset => exact hSpares.elim
  | runCompile w => exact hSpares.elim
  | addFile w name isRoot => rw [perform, store_addFile]
  | resolveFile w name => rw [perform, store_resolveFile]
  | ask w q =>
    cases q with
    | sourceFile name => rw [perform, answer, store_resolveFile]
    | emitText name text => exact OutputStore.get?_write_of_not_mem hSpares h.store _
    | _ => rfl
  | _ => rfl

/-- What every call spares is kept at the end. -/
theorem get?_performAll_of_spares (hLayout : h.layout = l)
    (hSpares : ∀ call ∈ calls, call.Spares l output) :
    (h.performAll calls).store.get? output = h.store.get? output := by
  induction calls generalizing h with
  | nil => rfl
  | cons call calls ih =>
    have hNext : (h.perform call).layout = l :=
      (h.layout_perform call).trans hLayout
    have hRest := ih hNext fun other hOther => hSpares other (List.mem_cons_of_mem call hOther)
    exact hRest.trans (get?_perform_of_spares hLayout (hSpares call List.mem_cons_self))

/-! ## What is handed out -/

/-- What is kept for an emitted file, if its source is in the source tree. -/
theorem get?_emitText (hLayout : h.layout = l) (hl : l.Proper)
    (hSource : source ∈ l.below l.sourceRoot)
    (hName : l.canonicalize name = l.toOutput source.text) (w : World) (data : String) :
    (h.emitText w name data).store.get? (l.toOutput source.text) =
      some (Reference.resolveAll w.tree (Path.dirname source.text) data) := by
  subst hLayout
  -- the way out and the way in meet here: the source is found back from its output path
  have hBack : h.layout.toSource (h.layout.canonicalize name).text = source := by
    rw [hName, hl.toSource_toOutput hSource]
  have hMem : h.layout.toOutput source.text ∈ OutputStore.writtenPaths h.layout w.tree name := by
    rw [← hName]
    exact OutputStore.canonicalize_mem_writtenPaths h.layout w.tree name
  rw [emitText, OutputStore.get?_write_of_mem hMem, hBack]

/-- A file is asked for by any spelling of the path of its source. -/
theorem requestArtifact_eq (hLayout : h.layout = l) (hl : l.Proper)
    (hLogical : l.canonicalize logical = source) :
    h.requestArtifact logical =
      (h.store.get? (l.toOutput source.text)).map fun text =>
        h.processor.injectHotReload text (l.toOutput source.text) logical source := by
  subst hLayout
  rw [requestArtifact, hl.toOutput_of_canonicalize hLogical, hLogical]

/-- What is handed out behind some calls that do not reach the file. -/
theorem requestArtifact_performAll (hLayout : h.layout = l) (hl : l.Proper)
    (hCalls : ∀ call ∈ calls, call.Spares l (l.toOutput source.text))
    (hLogical : l.canonicalize logical = source) :
    (h.performAll calls).requestArtifact logical = h.requestArtifact logical := by
  have hLayout' : (h.performAll calls).layout = l := by rw [layout_performAll, hLayout]
  rw [requestArtifact_eq hLayout hl hLogical, requestArtifact_eq hLayout' hl hLogical,
    get?_performAll_of_spares hLayout hCalls]
  simp only [ArtifactProcessor.injectHotReload_eq, hotReload_performAll]

/-- What is handed out for a file after its last emission. -/
theorem requestArtifact_last_emission (hLayout : h.layout = l) (hl : l.Proper)
    (hSource : source ∈ l.below l.sourceRoot)
    (hName : l.canonicalize name = l.toOutput source.text) (w : World) (data : String)
    (hCalls : ∀ call ∈ calls, call.Spares l (l.toOutput source.text))
    (hLogical : l.canonicalize logical = source) :
    ((h.emitText w name data).performAll calls).requestArtifact logical =
      some (h.processor.injectHotReload
        (Reference.resolveAll w.tree (Path.dirname source.text) data)
        (l.toOutput source.text) logical source) := by
  have hEmitted : (h.emitText w name data).layout = l := hLayout
  rw [requestArtifact_performAll hEmitted hl hCalls hLogical,
    requestArtifact_eq hEmitted hl hLogical, get?_emitText hLayout hl hSource hName]
  rfl

/-- The same behind a whole pass, in the course of which the file was emitted for the last time. -/
theorem requestArtifact_runCompile (hLayout : h.layout = l) (hl : l.Proper)
    (hSource : source ∈ l.below l.sourceRoot)
    (hName : l.canonicalize name = l.toOutput source.text) {w : World} {data : String}
    {earlier later : List (Call P)}
    (hPass : h.passCalls w = earlier ++ .ask w (.emitText name data) :: later)
    (hLater : ∀ call ∈ later, call.Spares l (l.toOutput source.text))
    (hLogical : l.canonicalize logical = source) :
    (h.runCompile w).1.requestArtifact logical =
      some (h.processor.injectHotReload
        (Reference.resolveAll w.tree (Path.dirname source.text) data)
        (l.toOutput source.text) logical source) := by
  have hBefore : (h.reset.performAll earlier).layout = l :=
    (layout_performAll h.reset earlier).trans hLayout
  have hHotReload : (h.reset.performAll earlier).processor.hotReload = h.processor.hotReload :=
    hotReload_performAll h.reset earlier
  have hLast := requestArtifact_last_emission hBefore hl hSource hName w data hLater hLogical
  rw [ArtifactProcessor.injectHotReload_eq, hHotReload,
    ← ArtifactProcessor.injectHotReload_eq] at hLast
  rw [runCompile_fst_eq_performAll, hPass, performAll_append]
  exact hLast

end Emission

/-- **From emission to request.**  A file is emitted under some spelling of the output path of a
source in the source tree, to a host with whatever files, and the emission comes back.  As long as
no generation starts and no file with this path for one of its names is emitted, it is handed out
for every spelling of the path of the source: its text with the references resolved at the time of
emission, from the directory of the source, and with the bootstrap for the source, unless there is
no hot reload, or it is a declaration file, or the spelling is excluded.  In a new generation there
is nothing. -/
theorem requestArtifact_emitText {h : Host P N} (hl : h.layout.Proper)
    (hSource : source ∈ h.layout.below h.layout.sourceRoot) {name : String}
    (hName : h.layout.canonicalize name = h.layout.toOutput source.text) (w : World)
    (data : String) {calls : List (Call P)}
    (hCalls : ∀ call ∈ calls, call.Spares h.layout (h.layout.toOutput source.text))
    {logical : String} (hLogical : h.layout.canonicalize logical = source) :
    let text := Reference.resolveAll w.tree (Path.dirname source.text) data
    ((h.emitText w name data).performAll calls).requestArtifact logical =
      some (match h.processor.hotReload with
        | none => text
        | some reloader =>
          if ".d.ts".toList <:+ (h.layout.toOutput source.text).text.toList ∨
              reloader.exclusion.isMatch logical = true then text
          else HotReload.splice text (reloader.snippet (HotReload.componentId source))) ∧
    (h.reset.performAll calls).requestArtifact logical = none := by
  intro text
  have hReset : h.reset.layout = h.layout := rfl
  refine ⟨?_, ?_⟩
  · rw [requestArtifact_last_emission rfl hl hSource hName w data hCalls hLogical,
      ArtifactProcessor.injectHotReload_eq]
  · rw [requestArtifact_performAll hReset hl hCalls hLogical, requestArtifact_eq hReset hl hLogical]
    exact congrArg (Option.map _) (OutputStore.get?_empty (h.layout.toOutput source.text))

/-- A component with a template: the file is emitted, another one is emitted after the template is
gone, and the first one is asked for by a spelling of its source. -/
theorem requestArtifact_component :
    let h : Host String Unit := { Host.echo with
      layout := .sideBySide
      processor := { Host.echo.processor with
        hotReload := some ⟨"hot('COMP_ID')", .update, .component, ⟨⟨[]⟩, ⟨[]⟩⟩⟩ } }
    let w : World := ⟨⟨[(["src"], .directory), (["src", "c.html"], .file [])], []⟩, ⟨[]⟩⟩
    let calls := [.setRoots [], .ask ⟨⟨[], []⟩, ⟨[]⟩⟩ (.emitText "dist/b" "other")]
    h.layout.Proper ∧ h.layout.canonicalize "src/c" ∈ h.layout.below h.layout.sourceRoot ∧
      h.layout.canonicalize "./dist/c" =
        h.layout.toOutput (h.layout.canonicalize "src/c").text ∧
      (∀ call ∈ calls, Call.Spares h.layout
        (h.layout.toOutput (h.layout.canonicalize "src/c").text) call) ∧
      h.layout.canonicalize "src/./c" = h.layout.canonicalize "src/c" ∧
      ((h.emitText w "./dist/c" "templateUrl: './c.html'").performAll calls).requestArtifact
          "src/./c" = some "template: require('./c.html')\nhot('6eaf3c079fbd272a')" ∧
      (h.reset.performAll calls).requestArtifact "src/./c" = none := by
  intro h w calls
  have hl : h.layout.Proper := Layout.proper_sideBySide
  have hSource : h.layout.canonicalize "src/c" ∈ h.layout.below h.layout.sourceRoot :=
    ⟨⟨_, rfl⟩, by decide +kernel, by decide +kernel⟩
  have hName : h.layout.canonicalize "./dist/c" =
      h.layout.toOutput (h.layout.canonicalize "src/c").text := by
    decide +kernel
  have hSpared : h.layout.toOutput (h.layout.canonicalize "src/c").text ∉
      OutputStore.writtenPaths h.layout ⟨[], []⟩ "dist/b" := by
    decide +kernel
  have hCalls : ∀ call ∈ calls, Call.Spares h.layout
      (h.layout.toOutput (h.layout.canonicalize "src/c").text) call := by
    simp only [calls, List.mem_cons, List.not_mem_nil, or_false]
    rintro call (rfl | rfl)
    · trivial
    · exact hSpared
  have hLogical : h.layout.canonicalize "src/./c" = h.layout.canonicalize "src/c" := by
    decide +kernel
  obtain ⟨hHandedOut, hNone⟩ := requestArtifact_emitText hl hSource hName w
    "templateUrl: './c.html'" hCalls hLogical
  refine ⟨hl, hSource, hName, hCalls, hLogical, hHandedOut.trans ?_, hNone⟩
  decide +kernel

end Host

end CompileHost
