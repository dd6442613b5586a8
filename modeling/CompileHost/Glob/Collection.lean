import CompileHost.Glob.Expression
import CompileHost.Glob.Method
import CompileHost.Glob.Parse

/-!
# Collections of globs

A collection matches what one of its globs matches.  The globs that are tested token by token are
made into regular expressions, and those among them that nest too deep are refused.
-/

namespace CompileHost

namespace Glob

/-- Why there is no collection of some globs. -/
inductive Error where
  /-- A text is no glob. -/
  | malformed (pattern : String) (fault : Fault)
  /-- The expression of a glob that ends with an extension is too deep. -/
  | deepExtension (expression : String)
  /-- One of the other expressions is too deep, the one at the given position. -/
  | deepExpression (position : Nat)
  deriving DecidableEq

/-- The wording of an error. -/
def Error.message : Error → String
  | malformed pattern fault => "error parsing glob '" ++ pattern ++ "': " ++ fault.message
  | deepExtension expression => "error parsing glob '" ++ expression ++ "': error parsing pattern 0"
  | deepExpression position => "error parsing pattern " ++ toString position

end Glob

/-- Globs that are tested together. -/
structure GlobCollection where
  globs : List Glob

namespace GlobCollection

/-- The globs with a method. -/
def ofMethod (method : Glob.Method) (globs : List Glob) : List Glob :=
  globs.filter (·.method = method)

/-- The collection of some globs.  Expressions behind extensions are looked at first. -/
def of (globs : List Glob) : Except Glob.Error GlobCollection :=
  match (ofMethod .behindExtension globs).find? Glob.isTooDeep with
  | some g => .error (.deepExtension g.expression)
  | none =>
    match (ofMethod .everything globs).findIdx? Glob.isTooDeep with
    | some position => .error (.deepExpression position)
    | none => .ok ⟨globs⟩

def isMatch (c : GlobCollection) (text : String) : Bool :=
  c.globs.any (·.isMatch text)

end GlobCollection

end CompileHost
