import CompileHost.Proofs.Path.RoundTrip

/-!
# Layouts with canonical roots

A layout that is made for an absolute working directory has an anchored canonicalizer and canonical
roots.  In such a layout the spelling of a path does not count, and below the two roots the way
there and the way back cancel out.

* `proper_of`: whatever layout is made, it is of this kind.
* `Proper.toSource_toOutput`, `Proper.toOutput_toSource`: there and back below the two roots.
-/

namespace CompileHost.Layout

open CompileHost.Path Canonicalizer

variable {l : Layout} {p : CanonicalPath}

/-- The canonicalizer has a canonical directory, and both roots are canonical. -/
structure Proper (l : Layout) : Prop where
  anchored : l.canonicalizer.Anchored
  sourceRoot : l.canonicalizer.Canonical l.sourceRoot
  outputRoot : l.canonicalizer.Canonical l.outputRoot

theorem proper_of {workingDirectory : String}
    (hDir : isAbsolute (slashes workingDirectory) = true) (directory : String)
    (caseSensitive : Bool) (sourceRoot outputRoot : String) :
    (Layout.of (Canonicalizer.of workingDirectory directory caseSensitive)
      sourceRoot outputRoot).Proper where
  anchored := anchored_of hDir directory caseSensitive
  sourceRoot := canonical_canonicalize (anchored_of hDir directory caseSensitive) sourceRoot
  outputRoot := canonical_canonicalize (anchored_of hDir directory caseSensitive) outputRoot

/-! ## Spellings -/

theorem Proper.canonicalize_text (hl : l.Proper) (path : String) :
    l.canonicalize (l.canonicalize path).text = l.canonicalize path :=
  (canonical_canonicalize hl.anchored path).canonicalize_text

/-- A place is found from every spelling of a path. -/
theorem reanchor_congr {source target : CanonicalPath} {path other : String}
    (hSame : l.canonicalize path = l.canonicalize other) :
    l.reanchor source target path = l.reanchor source target other := by
  rw [reanchor, hSame]
  rfl

theorem Proper.toSource_text (hl : l.Proper) (path : String) :
    l.toSource (l.canonicalize path).text = l.toSource path :=
  reanchor_congr (hl.canonicalize_text path)

/-- Where a source is emitted to, from any spelling of its path. -/
theorem Proper.toOutput_of_canonicalize (hl : l.Proper) {path : String}
    (hPath : l.canonicalize path = p) : l.toOutput path = l.toOutput p.text := by
  subst hPath
  exact (reanchor_congr (hl.canonicalize_text path)).symm

/-! ## There and back -/

theorem Proper.toSource_toOutput (hl : l.Proper) (hp : p ∈ l.below l.sourceRoot) :
    l.toSource (l.toOutput p.text).text = p :=
  leftInvOn_reanchor hl.anchored hl.sourceRoot hl.outputRoot hp

theorem Proper.toOutput_toSource (hl : l.Proper) (hp : p ∈ l.below l.outputRoot) :
    l.toOutput (l.toSource p.text).text = p :=
  leftInvOn_reanchor hl.anchored hl.outputRoot hl.sourceRoot hp

theorem Proper.canonicalize_toOutput (hl : l.Proper) (path : String) :
    l.canonicalize (l.toOutput path).text = l.toOutput path :=
  (canonical_reanchor hl.outputRoot path).canonicalize_text

theorem Proper.toOutput_mem_below (hl : l.Proper) (hp : p ∈ l.below l.sourceRoot) :
    l.toOutput p.text ∈ l.below l.outputRoot :=
  mapsTo_reanchor hl.anchored hl.outputRoot hp

/-- Different sources are emitted to different files. -/
theorem Proper.toOutput_inj (hl : l.Proper) {q : CanonicalPath} (hp : p ∈ l.below l.sourceRoot)
    (hq : q ∈ l.below l.sourceRoot) (hSame : l.toOutput p.text = l.toOutput q.text) : p = q :=
  (leftInvOn_reanchor hl.anchored hl.sourceRoot hl.outputRoot).injOn hp hq hSame

/-! ## Two trees side by side -/

/-- `/src` for sources and `/dist` for output. -/
def sideBySide : Layout :=
  .of (Canonicalizer.of "/" "." true) "src" "dist"

theorem proper_sideBySide : sideBySide.Proper :=
  proper_of (by decide) "." true "src" "dist"

end CompileHost.Layout
