import CompileHost.ArtifactProcessor
import CompileHost.Diagnostic.Format
import CompileHost.Host.Engine
import CompileHost.OutputStore

/-!
# Hosts

A host keeps the sources of an engine parsed from pass to pass, takes in what the engine emits, and
hands it out ready for use.  What a host finds in the world around it, the file tree and the
environment, may change at any time, and is given to every operation that looks at it.

* `addFile` reads a source and makes it part of the current generation.
* `resolveFile` gives the engine a source, at first request through `addFile`.
* `requestArtifact` hands out an emitted file.
-/

namespace CompileHost

/-- What lies around a host. -/
structure World where
  tree : FileTree
  environment : Environment

/-- The name that an engine asks for the default library by. -/
def defaultLibraryFile : String := "__lib.d.ts"

structure Host (P N : Type) where
  engine : Engine P N
  target : Target
  twoPhase : Bool
  layout : Layout
  cache : SourceCache P
  store : OutputStore
  processor : ArtifactProcessor
  /-- The names of the roots, as they were given. -/
  roots : List String
  defaultLibrary : Option (Parsed P)
  diagnostics : Diagnostics
  /-- Whether an error has been reported in this generation. -/
  failed : Bool

namespace Host

variable {P N : Type}

/-! ## Generations -/

/-- Starts a generation: nothing is emitted and nothing reported in it yet. -/
def reset (h : Host P N) : Host P N :=
  { h with cache := h.cache.reset, store := .empty, diagnostics := [], failed := false }

def setRoots (h : Host P N) (roots : List String) : Host P N :=
  { h with roots }

/-- Gives the engine a default library. -/
def setDefaultLibrary (h : Host P N) (value : P) : Host P N :=
  { h with defaultLibrary := some ⟨0, value⟩ }

def onFile (h : Host P N) (observer : String) : Host P N :=
  { h with cache := h.cache.subscribe observer }

/-! ## Sources -/

/-- Parses a source behind its directives. -/
def parse (h : Host P N) (name text : String) : P :=
  h.engine.parse name (h.processor.preprocess .script text) h.target

/-- Reads a source and adds it to the current generation; nothing happens if it cannot be read. -/
def addFile (h : Host P N) (w : World) (name : String) (isRoot : Bool) :
    Host P N × Option (Parsed P) :=
  let path := h.layout.canonicalize name
  match w.tree.read? path.text with
  | none => (h, none)
  | some bytes =>
    let relativeName := Path.relative h.layout.currentDirectory.text path.text
    let (cache, parsed) :=
      h.cache.add path relativeName (Text.decodeLossy bytes) isRoot h.parse
    ({ h with cache }, some parsed)

/-- A source of the current generation, added to it at its first request. -/
def resolveFile (h : Host P N) (w : World) (name : String) : Host P N × Option (Parsed P) :=
  if name = defaultLibraryFile then (h, h.defaultLibrary)
  else
    match h.cache.get? (h.layout.canonicalize name) with
    | some source => (h, some source.parsed)
    | none => h.addFile w name false

/-! ## Diagnostics -/

/-- Takes note of a diagnostic. -/
def report (h : Host P N) (d : Diagnostic) : Host P N :=
  { h with diagnostics := h.diagnostics ++ [d], failed := h.failed || d.isFatal }

def reportAll (h : Host P N) (ds : Diagnostics) : Host P N :=
  ds.foldl report h

/-! ## Emitted files -/

/-- Takes in an emitted file, the references of which start from the directory of its source. -/
def emitText (h : Host P N) (w : World) (name text : String) : Host P N :=
  let source := h.layout.toSource (h.layout.canonicalize name).text
  let resolved := Reference.resolveAll w.tree (Path.dirname source.text) text
  { h with store := (h.store.write h.layout w.tree name resolved).1 }

/-- The file emitted for a source, given by the path of the source with the extension of the
output, with the bootstrap of hot reload where it belongs. -/
def requestArtifact (h : Host P N) (name : String) : Option String :=
  let output := h.layout.toOutput name
  (h.store.get? output).map fun text =>
    h.processor.injectHotReload text output name (h.layout.canonicalize name)

/-- A resource of a component. -/
def inlineResource (h : Host P N) (w : World) (path : String) : Inlined :=
  h.processor.inline w.tree path

/-- Whether a component looks different from the last time. -/
def renderChanged (h : Host P N) (name render : String) : Host P N × Bool :=
  let id := HotReload.componentId (h.layout.canonicalize name)
  let (processor, changed) := h.processor.renderChanged id render
  ({ h with processor }, changed)

/-! ## What the host knows -/

def rootFiles (h : Host P N) : List CanonicalPath :=
  h.cache.rootPaths

def dependencyModules (h : Host P N) : List CanonicalPath :=
  h.cache.dependencyPaths

def observedFiles (h : Host P N) : List CanonicalPath :=
  h.cache.observedPaths

end Host

end CompileHost
