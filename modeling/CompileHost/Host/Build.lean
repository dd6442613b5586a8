import CompileHost.Host.Basic
import CompileHost.Host.Error
import CompileHost.Path.Absolute
import CompileHost.Path.CaseProbe

/-!
# Building hosts

A host is built from settings.  Of several faults in them the first counts: an empty current
directory, then a pattern that is no glob, then a bad option of markup minification.
-/

namespace CompileHost

namespace ArtifactProcessor

/-- The processor that settings ask for. -/
def build (w : World) (s : Settings) (currentDirectory : String) (tools : MarkupTools) :
    Except HostError ArtifactProcessor := do
  let hotReload ←
    if s.hotReload then
      match HotReloader.of w.tree currentDirectory s.runtime s.hotReloadExcluded with
      | .ok h => .ok (some h)
      | .error e => .error (.badExclusion e)
    else .ok none
  let markupOptions ← match Markup.Options.override s.markupOverrides with
    | .ok o => .ok o
    | .error e => .error (.badMarkupOptions e)
  return {
    definitions := s.definitions.definitions? w.environment
    tools
    markupOptions
    minifiesStylesheets := s.minifiesStylesheets
    hotReload
    tracker := .empty }

end ArtifactProcessor

namespace Host

variable {P N : Type}

/-- Builds a host for an engine. -/
def build (w : World) (s : Settings) (engine : Engine P N) (roots observers : List String)
    (tools : MarkupTools) : Except HostError (Host P N) := do
  let workingDirectory := (FileTree.placePath w.tree.workingDirectory).text
  let currentDirectory ← match Path.absolute? workingDirectory s.currentDirectory with
    | some path => .ok path
    | none => .error .noDirectory
  let caseSensitive := s.caseSensitive.getD (w.tree.distinguishesCase currentDirectory)
  let canonicalizer := Canonicalizer.of workingDirectory currentDirectory caseSensitive
  let processor ← ArtifactProcessor.build w s currentDirectory tools
  return {
    engine
    target := s.target
    twoPhase := engine.needsDependencyRoots
    layout := .of canonicalizer s.sourceDirectory s.outputDirectory
    cache := observers.foldl SourceCache.subscribe .empty
    store := .empty
    processor
    roots
    defaultLibrary := none
    diagnostics := []
    failed := false }

end Host

end CompileHost
