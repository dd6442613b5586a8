import CompileHost.HotReload.Bootstrap
import CompileHost.Markup.Minify
import CompileHost.Preprocess.Block
import CompileHost.RenderTracker
import CompileHost.Settings.Basic
import CompileHost.Stylesheet

/-!
# Processing what is emitted and what is inlined

The processor carries out directives, inlines templates and stylesheets, and puts the bootstrap of
hot reload into emitted modules.  How markup is minified and checked is up to its user.
-/

namespace CompileHost

/-- What is done with markup by others. -/
structure MarkupTools where
  minify : Markup.Options → String → String
  /-- The warnings about some markup. -/
  check : String → List String

/-- The library's own minifier, and no checks. -/
def MarkupTools.basic : MarkupTools := ⟨Markup.minify, fun _ => []⟩

structure ArtifactProcessor where
  definitions : Option Definitions
  tools : MarkupTools
  markupOptions : Markup.Options
  minifiesStylesheets : Bool
  hotReload : Option HotReloader
  tracker : RenderTracker

/-- An inlined resource, the markup that was checked on the way, and the warnings about it. -/
structure Inlined where
  text : String
  checked : Option String := none
  warnings : List String := []

namespace ArtifactProcessor

/-- A text with its directives carried out, unless that is switched off. -/
def preprocess (a : ArtifactProcessor) (kind : SourceKind) (text : String) : String :=
  match a.definitions with
  | some defs => Preprocess.process defs kind text
  | none => text

/-- The text of a file that is UTF-8. -/
def fileText? (t : FileTree) (path : String) : Option String :=
  (t.read? path).bind Text.decode?

/-- A template, ready to be put into a module; empty if there is none. -/
def inlineMarkup (a : ArtifactProcessor) (t : FileTree) (path : String) : Inlined :=
  match fileText? t path with
  | none => { text := "" }
  | some html =>
    let html := a.preprocess .markup html
    { text := a.tools.minify a.markupOptions html
      checked := some html
      warnings := a.tools.check html }

/-- A stylesheet, ready to be put into a module; empty if there is none. -/
def inlineStylesheet (a : ArtifactProcessor) (t : FileTree) (path : String) : Inlined :=
  match fileText? t path with
  | none => { text := "" }
  | some css => { text := if a.minifiesStylesheets then Stylesheet.minify css else css }

/-- The name of the file of a path. -/
def fileName? (path : String) : Option (List Char) :=
  match ((Text.splitAt '/' path.toList).filter fun s => s ≠ [] && s ≠ ['.']).getLast? with
  | some name => if name = ['.', '.'] then none else some name
  | none => none

/-- What follows the last dot of a file name, unless nothing stands before it. -/
def extension? (path : String) : Option String :=
  (fileName? path).bind fun name =>
    let ending := (name.reverse.takeWhile (· ≠ '.')).reverse
    if ending.length + 1 < name.length then some (String.ofList ending) else none

/-- A resource, ready to be put into a module.  Templates and stylesheets are known by their
extension; any other file is taken as it is. -/
def inline (a : ArtifactProcessor) (t : FileTree) (path : String) : Inlined :=
  match extension? path with
  | some "html" => a.inlineMarkup t path
  | some "css" => a.inlineStylesheet t path
  | _ => { text := (fileText? t path).getD "" }

/-- Puts the bootstrap of hot reload into a module that should have it. -/
def injectHotReload (a : ArtifactProcessor) (text : String) (output : CanonicalPath)
    (name : String) (source : CanonicalPath) : String :=
  match a.hotReload with
  | none => text
  | some h => if h.applies output name then h.inject text (HotReload.componentId source) else text

/-- Whether a component looks different from the last time. -/
def renderChanged (a : ArtifactProcessor) (id render : String) : ArtifactProcessor × Bool :=
  let (tracker, changed) := a.tracker.changed id render
  ({ a with tracker }, changed)

end ArtifactProcessor

end CompileHost
