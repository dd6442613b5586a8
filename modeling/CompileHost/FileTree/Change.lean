import CompileHost.FileTree.Basic

/-!
# Changes of a file tree

Writing a file or making a directory makes the directories on the way.  Writing through a link
writes what it leads to, and makes it if there is nothing yet; removing a link leaves that alone.
-/

namespace CompileHost

inductive FileTree.Change where
  | write (path : RawText) (bytes : List UInt8)
  | makeDirectory (path : RawText)
  | makeLink (path target : RawText)
  | remove (path : RawText)

namespace FileTree

/-- Puts a node at a place. -/
def put (t : FileTree) (place : Place) (node : Node) : FileTree :=
  { t with entries := t.entries.filter (·.1 ≠ place) ++ [(place, node)] }

/-- Writes bytes at a place.  Something that is no file takes them in and stays what it is. -/
def fill (t : FileTree) (place : Place) (bytes : List UInt8) : FileTree :=
  match t.node? place with
  | some (.special _) => t
  | _ => t.put place (.file bytes)

/-- Takes away what is at a place and below it. -/
def cutOff (t : FileTree) (place : Place) : FileTree :=
  { t with entries := t.entries.filter fun entry => !place.isPrefixOf entry.1 }

/-- Walks along names, making directories where there is nothing. -/
def makeDirectories (t : FileTree) : Place → List RawText → Except Fault (FileTree × Place)
  | place, [] => .ok (t, place)
  | place, name :: rest =>
    match t.walk .name true linkLimit place [name, "."] with
    | .ok there => makeDirectories t there rest
    | .error .notFound =>
      if (t.node? (place ++ [name])).isSome then .error .notFound
      else
        let there := place ++ [name]
        makeDirectories (t.put there .directory) there rest
    | .error fault => .error fault

/-- The place of the last name of a path, with the directories on the way made. -/
def prepare (t : FileTree) (path : RawText) : Except Fault (FileTree × Place × RawText) :=
  let steps := names path
  match steps.getLast? with
  | none => .error .notFound
  | some name =>
    (t.makeDirectories (start t.workingDirectory path) steps.dropLast).map fun (t, place) =>
      (t, place, name)

/-- Where a file is written that has a name in a directory: behind the link of that name, if there
is one, at most `links` links further.  What the last link leads to need not exist. -/
def destination (t : FileTree) : Nat → Place → RawText → Except Fault Place
  | links, directory, name =>
    if name = "." ∨ name = ".." then .error .notADirectory
    else if nameLimit < name.size then .error .nameTooLong
    else
      match t.node? (directory ++ [name]) with
      | none | some (.file _) | some (.special _) => .ok (directory ++ [name])
      | some .directory => .error .notADirectory
      | some (.link target) =>
        let steps := names target
        match links, steps.getLast? with
        | links + 1, some last =>
          match t.walk .name true linkLimit (start directory target)
              (steps.dropLast ++ [("." : RawText)]) with
          | .ok there => destination t links there last
          | .error fault => .error fault
        | _, _ => .error .linkLoop

/-- The tree after a change, or the reason why it is impossible. -/
def apply (t : FileTree) : Change → Except Fault FileTree
  | .write path bytes =>
    (t.prepare path).bind fun (t, directory, name) =>
      (t.destination linkLimit directory name).map fun place => t.fill place bytes
  | .makeDirectory path =>
    (t.makeDirectories (start t.workingDirectory path) (names path)).map (·.1)
  | .makeLink path target =>
    (t.prepare path).bind fun (t, place, name) =>
      if (t.node? (place ++ [name])).isSome then .error .notADirectory
      else .ok (t.put (place ++ [name]) (.link target))
  | .remove path => (t.locate false path).map t.cutOff

end FileTree

end CompileHost
