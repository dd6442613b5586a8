import CompileHost.Path.Layout
import CompileHost.Path.Links
import Std.Data.TreeMap

/-!
# Emitted files

The store holds the emitted texts of one pass by canonical output path; the last write to a path
counts.  If the source of an emitted file is reached through a link, the text is also kept under
the output path of the source's real path, so that it can be read under both names.

A write goes through the links of its source, and does not come back where that walk does not end
(`Canonicalizer.linksEnd`).  What is said about writes is said about those that come back.
-/

namespace CompileHost

structure OutputStore where
  texts : Std.TreeMap CanonicalPath String

namespace OutputStore

def empty : OutputStore := ⟨∅⟩

/-- The other output path of an emitted file, if its source is reached through a link, and the walk
along the source ends. -/
def alias? (l : Layout) (t : FileTree) (output : CanonicalPath) : Option CanonicalPath :=
  let source := l.toSource output.text
  let real := l.canonicalizer.resolveLinks t source.text
  if real = source then none else some (l.toOutput real.text)

/-- Keeps an emitted text, if the walk along its source ends.  The answer is the path that the text
is kept under in the first place. -/
def write (store : OutputStore) (l : Layout) (t : FileTree) (path text : String) :
    OutputStore × CanonicalPath :=
  let output := l.canonicalize path
  let texts := store.texts.insert output text
  match alias? l t output with
  | none => (⟨texts⟩, output)
  | some other => (⟨texts.insert other text⟩, output)

def get? (store : OutputStore) (output : CanonicalPath) : Option String :=
  store.texts[output]?

@[simp]
theorem get?_empty (output : CanonicalPath) : empty.get? output = none := by
  simp [get?, empty]

/-- A text is read at its path, and at the other one if there is one. -/
theorem get?_write (store : OutputStore) (l : Layout) (t : FileTree) (path text : String)
    (output : CanonicalPath) :
    (store.write l t path text).1.get? output =
      if l.canonicalize path = output ∨ alias? l t (l.canonicalize path) = some output then
        some text
      else store.get? output := by
  rw [write]
  cases alias? l t (l.canonicalize path) with
  | none => simp [get?, Std.TreeMap.getElem?_insert]
  | some other =>
    simp only [get?, Std.TreeMap.getElem?_insert, Std.LawfulEqCmp.compare_eq_iff_eq,
      Option.some.injEq]
    by_cases h : l.canonicalize path = output <;> by_cases h' : other = output <;> simp only [h, h']
    all_goals rfl

/-- The text emitted to a path. -/
def read? (store : OutputStore) (l : Layout) (path : String) : Option String :=
  store.get? (l.canonicalize path)

def size (store : OutputStore) : Nat :=
  store.texts.size

/-- The paths of all texts, in order. -/
def paths (store : OutputStore) : List CanonicalPath :=
  store.texts.keys

end OutputStore

end CompileHost
