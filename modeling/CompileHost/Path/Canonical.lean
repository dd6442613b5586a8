import CompileHost.Path.Lexical
import CompileHost.Text.Case

/-!
# Canonical paths

A canonical path is absolute and normal, and lower-case where the case of names does not count.
Every table of the host is keyed by canonical paths, so that the spellings of one file meet in one
entry.
-/

namespace CompileHost

open CompileHost.Path

/-- A path in canonical form. -/
structure CanonicalPath where
  text : String
  deriving DecidableEq

namespace CanonicalPath

instance : Ord CanonicalPath := ⟨fun a b => compare a.text b.text⟩

instance : Std.TransOrd CanonicalPath where
  eq_swap := fun {a b} =>
    show compare a.text b.text = (compare b.text a.text).swap from Std.OrientedCmp.eq_swap
  isLE_trans := fun {a b c} =>
    show (compare a.text b.text).isLE → (compare b.text c.text).isLE →
      (compare a.text c.text).isLE from Std.TransCmp.isLE_trans

instance : Std.LawfulEqOrd CanonicalPath where
  eq_of_compare := fun {a b} h => by
    cases a
    cases b
    exact congrArg CanonicalPath.mk (Std.LawfulEqOrd.eq_of_compare h)

end CanonicalPath

/-- Brings paths into canonical form.  Relative paths start from `currentDirectory`, which is
itself canonical. -/
structure Canonicalizer where
  currentDirectory : String
  caseSensitive : Bool

namespace Canonicalizer

/-- Lower-cases a text where case does not count. -/
def fold (c : Canonicalizer) (text : String) : String :=
  if c.caseSensitive then text else Text.lower text

/-- A canonicalizer for a directory; a relative one lies in `workingDirectory`. -/
def of (workingDirectory directory : String) (caseSensitive : Bool) : Canonicalizer :=
  let path := slashes directory
  let path := if isAbsolute path then path else join (slashes workingDirectory) path
  let plain : Canonicalizer := ⟨"", caseSensitive⟩
  { plain with currentDirectory := plain.fold (normalize path) }

/-- A name with slashes only, and folded, but neither made absolute nor normal. -/
def canonicalName (c : Canonicalizer) (name : String) : String :=
  c.fold (slashes name)

/-- The canonical form of a path. -/
def canonicalize (c : Canonicalizer) (path : String) : CanonicalPath :=
  let path := slashes path
  let path := if isAbsolute path then path else join c.currentDirectory path
  ⟨c.fold (normalize path)⟩

end Canonicalizer

end CompileHost
