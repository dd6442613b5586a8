import CompileHost.Host.Basic

/-!
# The answers of a host

How a host answers the questions of its engine.  Sources are looked up by their canonical names,
while questions about files and directories go to the file tree as they are.
-/

namespace CompileHost

namespace FileTree

/-- What the names of the directories right in a directory are read as, in order; links to
directories are none. -/
def directories (t : FileTree) (path : String) : List String :=
  match t.locate true path with
  | .error _ => []
  | .ok place =>
    if t.node? place ≠ some .directory then []
    else
      let names := (t.children place).filterMap fun (name, node) =>
        if node = .directory then some name.text else none
      names.mergeSort fun a b => a ≤ b

end FileTree

namespace Host

variable {P N : Type}

/-- The default library of the engine for the target version. -/
def defaultLibraryName (h : Host P N) : String :=
  Path.join (Path.slashes h.engine.libraryDirectory) (h.engine.defaultLibraryName h.target)

/-- The answer to a question, and the host behind it. -/
def answer (w : World) (h : Host P N) : (q : Query) → Host P N × q.Reply P
  | .sourceFile name => h.resolveFile w name
  | .defaultLibraryName => (h, h.defaultLibraryName)
  | .emitText name text => (h.emitText w name text, ())
  | .currentDirectory => (h, h.layout.currentDirectory.text)
  | .canonicalName name => (h, h.layout.canonicalizer.canonicalName name)
  | .isCaseSensitive => (h, h.layout.canonicalizer.caseSensitive)
  | .newLine => (h, "\n")
  | .fileExists name => (h, w.tree.isFile name)
  | .fileText name => (h, ArtifactProcessor.fileText? w.tree name)
  | .directoryExists name => (h, w.tree.isDirectory name)
  | .directories name => (h, w.tree.directories name)
  | .environmentVariable name => (h, w.environment.text? name)
  | .realPath name => (h, (w.tree.realPath name).map fun real => Path.slashes real.text)
  | .trace _ => (h, ())
  | .report d => (h.report d, ())

end Host

end CompileHost
