import CompileHost.Glob.Basic
import CompileHost.Text.Scan

/-!
# How globs are tested

What has to be looked at to test a glob depends on its tokens: the name of a file, its extension,
the text up to some place or from some place on, or everything token by token.  The first method
that suffices is taken.

The last segment of a text is the name of a file unless it is `..`.  So a glob that is tested by
names or extensions never matches a text that ends in such a segment.
-/

namespace CompileHost.Glob

/-- What is looked at to test a glob. -/
inductive Method where
  | fileName
  | wholeText
  | extension
  | beginning
  | ending
  /-- Everything, but only if the extension is right. -/
  | behindExtension
  | everything
  deriving DecidableEq

/-- The characters of tokens, if all of them are literal. -/
def literal? : List Token → Option (List Char)
  | [] => some []
  | .literal c :: rest => (literal? rest).map (c :: ·)
  | _ :: _ => none

def isPlainName (cs : List Char) : Bool :=
  !cs.isEmpty && !cs.contains '/'

/-- Directories, and a name in full. -/
def isFileName : List Token → Bool
  | .leadingDirectories :: rest => (literal? rest).any isPlainName
  | _ => false

/-- A `*`, a dot, and the extension behind it. -/
def isStarDot : List Token → Bool
  | .star :: .literal '.' :: rest => (literal? rest).any fun cs => !cs.contains '.' && !cs.contains '/'
  | _ => false

/-- Any name with a given extension. -/
def isExtension (separated : Bool) : List Token → Bool
  | .leadingDirectories :: rest => isStarDot rest
  | tokens => !separated && isStarDot tokens

/-- A text, and anything behind it. -/
def isBeginning (separated : Bool) (tokens : List Token) : Bool :=
  match tokens.getLast? with
  | some .star => !separated && (literal? tokens.dropLast).any (· ≠ [])
  | some .trailingTree => (literal? tokens.dropLast).isSome
  | _ => false

/-- Anything, and a text behind it. -/
def isEnding (separated : Bool) : List Token → Bool
  | .leadingDirectories :: .star :: rest | .star :: rest =>
    !separated && (literal? rest).any fun cs => cs ≠ [] && cs ≠ ['/']
  | .leadingDirectories :: rest => (literal? rest).any (· ≠ [])
  | _ => false

/-- Whether a glob ends with an extension in full. -/
def endsWithExtension (tokens : List Token) : Bool :=
  let ending := tokens.reverse.takeWhile fun
    | .literal c => c ≠ '.'
    | _ => false
  (literal? ending).any (fun cs => !cs.contains '/') &&
    match tokens.reverse.drop ending.length with
    | .literal '.' :: _ => true
    | _ => false

/-- How a glob is tested. -/
def method (g : Glob) : Method :=
  if isFileName g.tokens then .fileName
  else if (literal? g.tokens).any (· ≠ []) then .wholeText
  else if isExtension g.separated g.tokens then .extension
  else if isBeginning g.separated g.tokens then .beginning
  else if isEnding g.separated g.tokens then .ending
  else if endsWithExtension g.tokens then .behindExtension
  else .everything

/-- Whether only texts match that end with the name of a file. -/
def Method.needsFileName : Method → Bool
  | fileName | extension | behindExtension => true
  | wholeText | beginning | ending | everything => false

/-- Whether the last segment of a text is the name of a file. -/
def namesFile (text : String) : Bool :=
  (Text.splitAt '/' text.toList).getLastD [] ≠ ['.', '.']

/-- Whether a glob matches a text. -/
def isMatch (g : Glob) (text : String) : Bool :=
  (namesFile text || !g.method.needsFileName) && g.accepts text

end CompileHost.Glob
