import CompileHost.Text.Scan

/-!
# Paths as text

A path is a text with a root, which is `/`, a drive such as `C:/`, or nothing, and segments that
stand between slashes.  The operations here look at the text alone and never at a file tree.

* `normalize` turns backslashes into slashes and resolves `.`, `..` and empty segments.
* `relative` leads from one normal directory to another place, and `join` goes that way.
* `splitLast` takes the last segment off.
-/

namespace CompileHost.Path

open Text

/-- Every backslash becomes a slash. -/
def slashes (path : String) : String :=
  String.ofList (path.toList.map fun c => if c = '\\' then '/' else c)

/-- The number of characters of the root: `/`, a letter with `:/`, or none. -/
def rootLength : List Char → Nat
  | '/' :: _ => 1
  | letter :: ':' :: '/' :: _ => if letter.isAlpha then 3 else 0
  | _ => 0

def isAbsolute (path : String) : Bool :=
  0 < rootLength path.toList

/-- A path taken apart: its root, and what stands between the slashes behind it. -/
structure Parts where
  root : String
  segments : List String
  deriving DecidableEq

def parts (path : String) : Parts :=
  let cs := path.toList
  let n := rootLength cs
  { root := String.ofList (cs.take n)
    segments := (splitAt '/' (cs.drop n)).map String.ofList }

def Parts.text (p : Parts) : String :=
  p.root ++ String.ofList (joinWith '/' (p.segments.map String.toList))

/-- Takes one more segment onto the segments so far, the nearest first.  `..` takes the nearest
one away; where there is none to take away it stays, but is dropped below a root. -/
def pushSegment (rooted : Bool) (walked : List String) (segment : String) : List String :=
  if segment = "" ∨ segment = "." then walked
  else if segment = ".." then
    match walked with
    | [] => if rooted then [] else [".."]
    | nearest :: above =>
      if nearest ≠ ".." then above else if rooted then walked else ".." :: walked
  else segment :: walked

/-- Resolves `.`, `..` and empty segments. -/
def resolveDots (rooted : Bool) (segments : List String) : List String :=
  (segments.foldl (pushSegment rooted) []).reverse

/-- The normal form of a path.  A path that leads nowhere is `.`. -/
def normalize (path : String) : String :=
  let p := parts (slashes path)
  let text := { p with segments := resolveDots (p.root ≠ "") p.segments : Parts }.text
  if text = "" then "." else text

/-- The path without its last segment, and that segment; nothing when only the root is left. -/
def splitLast (path : String) : Option (String × String) :=
  let p := parts path
  if p.segments = [""] then none
  else some ({ p with segments := p.segments.dropLast : Parts }.text, p.segments.getLastD "")

/-- The directory part of a path, `.` when there is none. -/
def dirname (path : String) : String :=
  match splitLast path with
  | some (dir, _) => if dir = "" then "." else dir
  | none => path

def endsWithSlash (path : String) : Bool :=
  path.toList.getLast? = some '/'

/-- A path inside a directory, with one slash between the two. -/
def join (base rest : String) : String :=
  if rest = "" then base
  else if endsWithSlash base then base ++ rest
  else base ++ "/" ++ rest

/-- The way from one list of segments to another: up to where they part, then down. -/
def climb : List String → List String → List String
  | a :: as, b :: bs =>
    if a = b then climb as bs else (a :: as).map (fun _ => "..") ++ (b :: bs)
  | as, bs => as.map (fun _ => "..") ++ bs

/-- The path that leads from the directory `source` to `target`; `target` itself when their roots
differ. -/
def relative (source target : String) : String :=
  let p := parts source
  let q := parts target
  if p.root ≠ q.root then target
  else
    { root := ""
      segments := climb (p.segments.filter (· ≠ "")) (q.segments.filter (· ≠ "")) : Parts }.text

end CompileHost.Path
