import CompileHost.Text.Scan

/-!
# Small stylesheets

A stylesheet gets smaller in six steps: comments and line breaks go, runs of spaces shrink to one,
and then the spaces around `{`, `:` and `}`, behind `:`, behind `;` and `,`, and before `!` go.
-/

namespace CompileHost.Stylesheet

open Text

def isBreak (c : Char) : Bool :=
  c == '\r' || c == '\n' || c == '\t'

/-- Reads a comment. -/
def comment? (cs : List Char) : Option (Unit × List Char) :=
  (stripStart? "/*".toList cs).bind fun cs =>
    (splitBefore? "*/".toList cs).map fun (_, rest) => ((), rest.drop 2)

/-- Reads a run of line breaks and tabs. -/
def breaks? (cs : List Char) : Option (Unit × List Char) :=
  if cs.head?.any isBreak then some ((), cs.dropWhile isBreak) else none

/-- Reads a run of two or more spaces. -/
def spaces? (cs : List Char) : Option (Unit × List Char) :=
  if startsWith cs "  ".toList then some ((), cs.dropWhile (· = ' ')) else none

/-- Reads a brace or a colon between two spaces. -/
def spacedMark? : List Char → Option (Char × List Char)
  | ' ' :: c :: ' ' :: rest => if c = '{' ∨ c = ':' ∨ c = '}' then some (c, rest) else none
  | _ => none

/-- Reads a semicolon or a comma with a space behind it. -/
def spacedSeparator? : List Char → Option (Char × List Char)
  | c :: ' ' :: rest => if c = ';' ∨ c = ',' then some (c, rest) else none
  | _ => none

def dropComments (cs : List Char) : List Char :=
  replace (reading fun cs => (comment? cs).or (breaks? cs)) (fun _ => []) cs

def squeezeSpaces (cs : List Char) : List Char :=
  replace (reading spaces?) (fun _ => [' ']) cs

def tightenMarks (cs : List Char) : List Char :=
  replace (reading spacedMark?) (fun c => [c]) cs

def tightenColons (cs : List Char) : List Char :=
  replaceWord ": ".toList ":".toList cs

def tightenSeparators (cs : List Char) : List Char :=
  replace (reading spacedSeparator?) (fun c => [c]) cs

def tightenBangs (cs : List Char) : List Char :=
  replaceWord " !".toList "!".toList cs

/-- All six steps on characters. -/
def minifyChars (cs : List Char) : List Char :=
  tightenBangs (tightenSeparators (tightenColons (tightenMarks (squeezeSpaces (dropComments cs)))))

/-- A stylesheet made small. -/
def minify (css : String) : String :=
  String.ofList (minifyChars css.toList)

end CompileHost.Stylesheet
