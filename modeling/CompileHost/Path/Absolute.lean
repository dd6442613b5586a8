import CompileHost.Path.Lexical

/-!
# Absolute paths

A path is made absolute without a look at any file.  `.` and repeated slashes go, while `..`, a
slash at the end, and exactly two slashes in front stay.
-/

namespace CompileHost.Path

open Text

/-- How an absolute path begins. -/
def leadingSlashes : List Char → Option String
  | '/' :: '/' :: '/' :: _ => some "/"
  | '/' :: '/' :: _ => some "//"
  | '/' :: _ => some "/"
  | _ => none

/-- A path made absolute; the empty path cannot be. -/
def absolute? (workingDirectory path : String) : Option String :=
  if path = "" then none
  else
    let segments := ((splitAt '/' path.toList).map String.ofList).filter fun s => s ≠ "" && s ≠ "."
    let rest := String.ofList (joinWith '/' (segments.map String.toList))
    let whole := match leadingSlashes path.toList with
      | some slashes => slashes ++ rest
      | none => join workingDirectory rest
    some (if endsWithSlash path && !endsWithSlash whole then whole ++ "/" else whole)

end CompileHost.Path
