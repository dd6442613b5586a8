import CompileHost.Proofs.Host.Artifacts
import CompileHost.Proofs.Host.Diagnostics
import CompileHost.Proofs.HotReload.Bootstrap

/-!
# Spellings of what is asked for

A file is looked up by the canonical form of its name, and its component is known by it, so the
spelling plays no part there.  The globs of the exclusion see the name as it is spelled.  Since the
bootstrap always shows in a module, two spellings of one path are answered alike unless one is
excluded and the other is not.

* `isRendered_of_reachable`: the bootstrap of a host comes from a template.
* `requestArtifact_eq_iff`: which spellings of a path are answered alike.
* `requestArtifact_by_spelling`: two that are not.
-/

namespace CompileHost

/-- For one file and one component, only the exclusion tells two names apart. -/
theorem ArtifactProcessor.injectHotReload_eq_iff {a : ArtifactProcessor}
    (hRendered : ∀ reloader, a.hotReload = some reloader → reloader.IsRendered)
    {text name other : String} {output source : CanonicalPath} :
    a.injectHotReload text output name source = a.injectHotReload text output other source ↔
      ∀ reloader, a.hotReload = some reloader → ¬ ".d.ts".toList <:+ output.text.toList →
        reloader.exclusion.isMatch name = reloader.exclusion.isMatch other := by
  rw [injectHotReload_eq, injectHotReload_eq]
  cases hHotReload : a.hotReload with
  | none => simp
  | some reloader =>
    have hNe := (hRendered reloader hHotReload).inject_ne text (HotReload.componentId source)
    rw [HotReloader.inject] at hNe
    simp only [Option.some.injEq, forall_eq']
    by_cases hDeclaration : ".d.ts".toList <:+ output.text.toList
    · simp only [hDeclaration, true_or, if_true, not_true_eq_false, false_implies]
    · simp only [hDeclaration, false_or, not_false_eq_true, true_implies]
      cases reloader.exclusion.isMatch name <;> cases reloader.exclusion.isMatch other
      · simp
      · simpa using hNe
      · simpa using hNe.symm
      · simp

namespace Host

variable {P N : Type} {h : Host P N} {name other : String}

theorem isRendered_of_reachable (hReachable : h.Reachable) {reloader : HotReloader}
    (hReloader : h.processor.hotReload = some reloader) : reloader.IsRendered := by
  induction hReachable with
  | @built w s _ _ _ _ _ hBuild =>
    obtain ⟨directory, hOf⟩ := (processor_of_build hBuild).2 reloader hReloader
    exact ⟨w.tree, directory, s.runtime, s.hotReloadExcluded, hOf⟩
  | @called before _ call ih =>
    have hKept : (before.perform call).processor.hotReload = before.processor.hotReload :=
      congrArg Prod.snd (before.outlet_perform call)
    exact ih (hKept.symm.trans hReloader)
  | engine _ _ ih => exact ih hReloader

/-- **Spellings.**  Two spellings of one path are answered alike, unless the file is there and gets
a bootstrap under one of them only, because the other one is excluded. -/
theorem requestArtifact_eq_iff (hReachable : h.Reachable)
    (hSame : h.layout.canonicalize name = h.layout.canonicalize other) :
    h.requestArtifact name = h.requestArtifact other ↔
      ∀ text, h.store.get? (h.layout.toOutput name) = some text →
        ∀ reloader, h.processor.hotReload = some reloader →
          ¬ ".d.ts".toList <:+ (h.layout.toOutput name).text.toList →
            reloader.exclusion.isMatch name = reloader.exclusion.isMatch other := by
  have hOutput : h.layout.toOutput other = h.layout.toOutput name :=
    Layout.reanchor_congr hSame.symm
  have hRendered : ∀ reloader, h.processor.hotReload = some reloader → reloader.IsRendered :=
    fun _ hReloader => isRendered_of_reachable hReachable hReloader
  rw [requestArtifact, requestArtifact, hOutput, ← hSame]
  cases h.store.get? (h.layout.toOutput name) with
  | none => simp
  | some text =>
    simp only [Option.map_some, Option.some.injEq, forall_eq']
    exact ArtifactProcessor.injectHotReload_eq_iff hRendered

/-- Modules right below `src` are excluded, and a backslash is as good as a slash. -/
theorem requestArtifact_eq_backslash :
    let w : World := ⟨⟨[], []⟩, ⟨[]⟩⟩
    let s : Settings := {
      currentDirectory := "/", sourceDirectory := "src", outputDirectory := "dist"
      hotReload := true, hotReloadExcluded := ["src/*.js"], caseSensitive := some true }
    ∃ h, Host.build w s Engine.echo [] [] .basic = .ok h ∧
      let after := h.perform (.ask w (.emitText "dist/a.js" "a"))
      after.Reachable ∧
      after.layout.canonicalize "src/a.js" = after.layout.canonicalize "src\\a.js" ∧
      after.requestArtifact "src/a.js" = after.requestArtifact "src\\a.js" := by
  intro w s
  have hSpellings : (Host.build w s Engine.echo [] [] .basic).toOption.any (fun h =>
      h.layout.canonicalize "src/a.js" = h.layout.canonicalize "src\\a.js") = true := by
    decide +kernel
  have hExcluded : (Exclusion.of s.hotReloadExcluded).toOption.all (fun exclusion =>
      exclusion.isMatch "src/a.js" = exclusion.isMatch "src\\a.js") = true := by
    decide +kernel
  cases hBuild : Host.build w s Engine.echo [] [] .basic with
  | error e =>
    rw [hBuild] at hSpellings
    cases hSpellings
  | ok h =>
    rw [hBuild] at hSpellings
    refine ⟨h, rfl, ?_⟩
    intro after
    have hReachable : after.Reachable := .called (.built hBuild) _
    have hSame : after.layout.canonicalize "src/a.js" = after.layout.canonicalize "src\\a.js" := by
      rw [layout_perform]
      exact of_decide_eq_true hSpellings
    refine ⟨hReachable, hSame, (requestArtifact_eq_iff hReachable hSame).2 ?_⟩
    intro _ _ reloader hReloader _
    obtain ⟨directory, hOf⟩ := (processor_of_build hBuild).2 reloader hReloader
    rw [(HotReloader.of_eq_ok hOf).2] at hExcluded
    exact of_decide_eq_true hExcluded

/-- A glob with a slash sees how a name begins, and a `./` keeps it from matching. -/
theorem requestArtifact_by_spelling :
    let w : World := ⟨⟨[], []⟩, ⟨[]⟩⟩
    let s : Settings := {
      currentDirectory := "/", sourceDirectory := "src", outputDirectory := "dist"
      hotReload := true, hotReloadExcluded := ["src/*.js"], caseSensitive := some true }
    ∃ h, Host.build w s Engine.echo [] [] .basic = .ok h ∧
      let after := h.perform (.ask w (.emitText "dist/a.js" "a"))
      after.Reachable ∧
      after.layout.canonicalize "src/a.js" = after.layout.canonicalize "./src/a.js" ∧
      after.requestArtifact "src/a.js" ≠ after.requestArtifact "./src/a.js" := by
  intro w s
  have hRun : (Host.build w s Engine.echo [] [] .basic).toOption.any (fun h =>
      let after := h.perform (.ask w (.emitText "dist/a.js" "a"))
      after.layout.canonicalize "src/a.js" = after.layout.canonicalize "./src/a.js" ∧
        after.requestArtifact "src/a.js" ≠ after.requestArtifact "./src/a.js") = true := by
    decide +kernel
  cases hBuild : Host.build w s Engine.echo [] [] .basic with
  | error e =>
    rw [hBuild] at hRun
    cases hRun
  | ok h =>
    rw [hBuild] at hRun
    exact ⟨h, rfl, .called (.built hBuild) _, of_decide_eq_true hRun⟩

end Host

end CompileHost
