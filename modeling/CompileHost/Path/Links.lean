import CompileHost.FileTree.Basic
import CompileHost.Path.Canonical

/-!
# Paths without links

The walk that replaces the symbolic links of a path goes from the whole path up to its root.  A
path that names a link with a target gives way to the real path of that target; any other path
loses its last segment, which is kept.  The walk ends at the root, and what it has kept is put
behind it again.  A real path is looked up with slashes for its backslashes, and may then be the
path of another link, so there are walks that never end.  The same may happen with a real path that
is not UTF-8, as it is looked up as the text that it reads as.

`LinkWalk.next` is one step of the walk, and `LinkWalk.run` takes as many as it is allowed.
-/

namespace CompileHost

open CompileHost.Path

/-- Where the walk is, and the segments that it has kept, in the order of the path. -/
structure LinkWalk where
  current : String
  kept : List String
  deriving DecidableEq

namespace LinkWalk

/-- A path without a `//?/` in front. -/
def plainPath (path : String) : String :=
  match Text.stripStart? "//?/".toList path.toList with
  | some rest => String.ofList rest
  | none => path

/-- The real path behind a link, if the path is one and leads somewhere. -/
def linked? (t : FileTree) (path : String) : Option String :=
  if t.isLink path then
    match t.realPath path with
    | .ok real => some (plainPath (slashes real.text))
    | .error _ => none
  else none

/-- One step of the walk; none at its end. -/
def next (t : FileTree) (w : LinkWalk) : Option LinkWalk :=
  match linked? t w.current with
  | some real => some { w with current := real }
  | none => (splitLast w.current).map fun (parent, name) => ⟨parent, name :: w.kept⟩

/-- At most `steps` steps. -/
def run (t : FileTree) : Nat → LinkWalk → LinkWalk
  | 0, w => w
  | steps + 1, w =>
    match next t w with
    | none => w
    | some w => run t steps w

/-- The path that the walk has come to. -/
def path (w : LinkWalk) : String :=
  join w.current (String.ofList (Text.joinWith '/' (w.kept.map String.toList)))

end LinkWalk

/-- The length of the longest path of the tree, in bytes. -/
def FileTree.longestPath (t : FileTree) : Nat :=
  t.entries.foldl (fun longest entry => max longest (placePath entry.1).size) 1

/-- The number of links of the tree. -/
def FileTree.linkCount (t : FileTree) : Nat :=
  t.entries.countP fun entry =>
    match entry.2 with
    | .link _ => true
    | _ => false

/-- More steps than a walk can take that never stands twice behind the same link. -/
def FileTree.walkBound (t : FileTree) (path : String) : Nat :=
  path.length + (t.linkCount + 1) * (t.longestPath + 1) + 1

/-- The canonical form of a path, with the links on its way replaced by what they lead to, if the
walk along it ends.  What does not exist counts as a plain directory. -/
def Canonicalizer.resolveLinks (c : Canonicalizer) (t : FileTree) (path : String) :
    CanonicalPath :=
  let whole := (c.canonicalize path).text
  c.canonicalize (LinkWalk.run t (t.walkBound whole) ⟨whole, []⟩).path

/-- Whether the walk along a path ends.  Where it does not, `resolveLinks` has no meaning. -/
def Canonicalizer.linksEnd (c : Canonicalizer) (t : FileTree) (path : String) : Bool :=
  let whole := (c.canonicalize path).text
  (LinkWalk.next t (LinkWalk.run t (t.walkBound whole) ⟨whole, []⟩)).isNone

end CompileHost
