import CompileHost.Text.Scan
import CompileHost.Text.Utf8
import Std.Data.TreeMap

/-!
# Environment variables

Variables have names that are texts and values that are bytes.  A name is looked up among the
entries `NAME=VALUE`, so that a name with a `=` in it reaches into the values.
-/

namespace CompileHost

structure Environment where
  entries : List (String × List UInt8)

/-- Names and the texts that they stand for. -/
abbrev Definitions := Std.TreeMap String String

namespace Environment

/-- The value of a variable, if there is one and it is text. -/
def text? (env : Environment) (name : String) : Option String :=
  if name = "" then none
  else
    let wanted := Text.utf8Bytes (name ++ "=")
    (env.entries.findSome? fun (key, value) =>
      Text.stripStart? wanted (Text.utf8Bytes (key ++ "=") ++ value)).bind Text.decode?

/-- All variables that are text. -/
def definitions (env : Environment) : Definitions :=
  env.entries.foldl
    (fun defs (name, value) =>
      match Text.decode? value with
      | some text => defs.insert name text
      | none => defs)
    ∅

end Environment

end CompileHost
