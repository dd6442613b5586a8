import CompileHost.Text.Raw
import CompileHost.Text.Scan

/-!
# File trees

A tree of files, directories and symbolic links, each at an absolute place given by the names that
lead to it, and the directory that relative paths start from.  What is none of these, such as a
device, may be read all the same.  Names and paths are raw, and whoever looks at a tree is allowed
to read and to search all of it.

`walk` follows a path name by name: `.` stays, `..` goes up from where the walk has really come
to, and a link is replaced by its target.  A walk that meets too many links fails, as does one
through a file, through a missing name, or through a name too long to exist.

`realPath` tells the path of where a walk ends.  It looks up every entry by the path that it has
come to, so it fails also where that gets too long.
-/

namespace CompileHost

open Text

inductive Node where
  | file (bytes : List UInt8)
  | directory
  | link (target : RawText)
  /-- Something else, and what can be read from it, if anything. -/
  | special (bytes : Option (List UInt8))
  deriving DecidableEq

/-- The names that lead from the root to a place. -/
abbrev Place := List RawText

structure FileTree where
  entries : List (Place × Node)
  workingDirectory : Place

namespace FileTree

/-- Why a path leads nowhere. -/
inductive Fault where
  | notFound
  | notADirectory
  | linkLoop
  | nameTooLong
  | invalidName
  deriving DecidableEq, Repr

/-- What an entry is looked up by on a walk. -/
inductive Handle where
  /-- Its name, in the directory that the walk has come to. -/
  | name
  /-- The path of its place. -/
  | path

/-- The number of links that one walk may follow. -/
def linkLimit : Nat := 40

/-- The longest name, in bytes. -/
def nameLimit : Nat := 255

/-- The longest path, in bytes. -/
def pathLimit : Nat := 4095

/-- What is at a place; the root is a directory. -/
def node? (t : FileTree) (place : Place) : Option Node :=
  if place = [] then some .directory else (t.entries.find? (·.1 = place)).map (·.2)

/-- The path of a place. -/
def placePath (place : Place) : RawText :=
  ⟨RawText.slash :: joinWith RawText.slash (place.map RawText.bytes)⟩

/-- The names of a path.  A slash at the end asks for a directory, as `.` does. -/
def names (path : RawText) : List RawText :=
  let pieces := (splitAt RawText.slash path.bytes).map RawText.mk
  let ending : List RawText := if path.bytes.getLast? = some RawText.slash then ["."] else []
  pieces.filter (·.bytes ≠ []) ++ ending

/-- Where a walk along a path starts. -/
def start (directory : Place) (path : RawText) : Place :=
  if path.bytes.head? = some RawText.slash then [] else directory

/-- Whether the path is too long by which a name is looked up at a place; `.` and `..` ask for the
directory itself, with a slash behind it. -/
def Handle.tooFar : Handle → Place → RawText → Bool
  | name, _, _ => false
  | path, place, s =>
    let last : RawText := if s = "." ∨ s = ".." then "" else s
    pathLimit < (placePath (place ++ [last])).size

/-- How far a walk comes without following a link. -/
inductive Progress where
  | arrived (place : Place)
  | linked (directory : Place) (target : RawText) (rest : List RawText)

/-- Walks up to the end or to the first link.  A link at the very end is followed only if
`follow` is set. -/
def advance (t : FileTree) (handle : Handle) (follow : Bool) :
    Place → List RawText → Except Fault Progress
  | place, [] => .ok (.arrived place)
  | place, name :: rest =>
    if handle.tooFar place name then .error .nameTooLong
    else if t.node? place ≠ some .directory then .error .notADirectory
    else if name = "." then advance t handle follow place rest
    else if name = ".." then advance t handle follow place.dropLast rest
    else if nameLimit < name.size then .error .nameTooLong
    else
      match t.node? (place ++ [name]) with
      | none => .error .notFound
      | some (.link target) =>
        if rest = [] ∧ follow = false then .ok (.arrived (place ++ [name]))
        else .ok (.linked place target rest)
      | some _ => advance t handle follow (place ++ [name]) rest

/-- Walks to the end, through at most `links` links. -/
def walk (t : FileTree) (handle : Handle) (follow : Bool) :
    Nat → Place → List RawText → Except Fault Place
  | links, place, path =>
    match t.advance handle follow place path with
    | .error fault => .error fault
    | .ok (.arrived there) => .ok there
    | .ok (.linked directory target rest) =>
      match links with
      | 0 => .error .linkLoop
      | links + 1 => walk t handle follow links (start directory target) (names target ++ rest)

/-- The place that a path leads to. -/
def locate (t : FileTree) (follow : Bool) (path : RawText) : Except Fault Place :=
  if path = "" then .error .notFound
  else if path.bytes.contains RawText.null then .error .invalidName
  else if pathLimit < path.size then .error .nameTooLong
  else t.walk .name follow linkLimit (start t.workingDirectory path) (names path)

/-- What a path leads to, links followed. -/
def lookup (t : FileTree) (path : RawText) : Except Fault Node :=
  (t.locate true path).bind fun place =>
    match t.node? place with
    | some node => .ok node
    | none => .error .notFound

def exists? (t : FileTree) (path : RawText) : Bool :=
  (t.lookup path).isOk

def isFile (t : FileTree) (path : RawText) : Bool :=
  match t.lookup path with
  | .ok (.file _) => true
  | _ => false

def isDirectory (t : FileTree) (path : RawText) : Bool :=
  match t.lookup path with
  | .ok .directory => true
  | _ => false

/-- Whether a path names a symbolic link. -/
def isLink (t : FileTree) (path : RawText) : Bool :=
  match t.locate false path with
  | .ok place =>
    match t.node? place with
    | some (.link _) => true
    | _ => false
  | .error _ => false

/-- The bytes of a file, or of something else that can be read. -/
def read? (t : FileTree) (path : RawText) : Option (List UInt8) :=
  match t.lookup path with
  | .ok (.file bytes) => some bytes
  | .ok (.special bytes) => bytes
  | _ => none

/-- The path without links that leads to the same place.  The path itself may have any length. -/
def realPath (t : FileTree) (path : RawText) : Except Fault RawText :=
  if path = "" then .error .notFound
  else if path.bytes.contains RawText.null then .error .invalidName
  else
    (t.walk .path true linkLimit (start t.workingDirectory path) (names path)).map placePath

/-- The entries right below a place, by name. -/
def children (t : FileTree) (place : Place) : List (RawText × Node) :=
  t.entries.filterMap fun (there, node) =>
    match there.getLast? with
    | some name => if there.dropLast = place then some (name, node) else none
    | none => none

end FileTree

end CompileHost
