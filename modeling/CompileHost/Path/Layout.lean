import CompileHost.Path.Canonical

/-!
# The source tree and the output tree

A layout fixes the directory that sources are read from and the one that emitted files go to.
A path of one tree is carried over to the other by the way that leads to it from the root of its
own tree; the way may lead out of the tree, and then leads out of the other one too.
-/

namespace CompileHost

open CompileHost.Path

structure Layout where
  canonicalizer : Canonicalizer
  sourceRoot : CanonicalPath
  outputRoot : CanonicalPath
  currentDirectory : CanonicalPath

namespace Layout

/-- The layout with the given roots, which may be relative to the current directory. -/
def of (c : Canonicalizer) (sourceRoot outputRoot : String) : Layout where
  canonicalizer := c
  sourceRoot := c.canonicalize sourceRoot
  outputRoot := c.canonicalize outputRoot
  currentDirectory := c.canonicalize c.currentDirectory

def canonicalize (l : Layout) (path : String) : CanonicalPath :=
  l.canonicalizer.canonicalize path

/-- The place that lies to `target` as the path lies to `source`. -/
def reanchor (l : Layout) (source target : CanonicalPath) (path : String) : CanonicalPath :=
  l.canonicalize (join target.text (relative source.text (l.canonicalize path).text))

/-- Where a source is emitted to. -/
def toOutput (l : Layout) (path : String) : CanonicalPath :=
  l.reanchor l.sourceRoot l.outputRoot path

/-- Where an emitted file has its source. -/
def toSource (l : Layout) (path : String) : CanonicalPath :=
  l.reanchor l.outputRoot l.sourceRoot path

end Layout

end CompileHost
