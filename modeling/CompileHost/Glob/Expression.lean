import CompileHost.Glob.Basic
import CompileHost.Text.Scan

/-!
# Globs as regular expressions

A glob stands for a regular expression over bytes.  A choice becomes a group, and so do whole
segments of directories.  Groups, classes, repetitions, rows and alternatives may lie inside each
other only up to a certain depth.
-/

namespace CompileHost.Glob

/-! ## The text of an expression -/

/-- The characters that mean something in an expression. -/
def metaCharacters : List Char :=
  "\\.+*?()|[]\x7b\x7d^$#&-~".toList

/-- A byte as it stands in an expression. -/
def byteExpression (b : UInt8) : List Char :=
  if b < 0x80 then
    let c := Char.ofNat b.toNat
    if metaCharacters.contains c then ['\\', c] else [c]
  else ['\\', 'x', Nat.digitChar (b.toNat / 16), Nat.digitChar (b.toNat % 16)]

def charExpression (c : Char) : List Char :=
  (String.utf8EncodeChar c).flatMap byteExpression

def rangeExpression (low high : Char) : List Char :=
  if low = high then charExpression low
  else charExpression low ++ '-' :: charExpression high

/-- Alternatives in a group. -/
def group (parts : List (List Char)) : List Char :=
  if parts.isEmpty then []
  else "(?:".toList ++ Text.joinWith '|' parts ++ [')']

mutual

def Token.expression (separated : Bool) : Token → List Char
  | .literal c => charExpression c
  | .any => (if separated then "[^/]" else ".").toList
  | .star => (if separated then "[^/]*" else ".*").toList
  | .leadingDirectories => "(?:/?|.*/)".toList
  | .innerDirectories => "(?:/|/.*/)".toList
  | .trailingTree => "/.*".toList
  | .charClass negated ranges =>
    '[' :: (if negated then ['^'] else []) ++
      ranges.flatMap (fun (low, high) => rangeExpression low high) ++ [']']
  | .choice branches => group (choiceExpressions separated branches)

def rowExpression (separated : Bool) : List Token → List Char
  | [] => []
  | t :: ts => t.expression separated ++ rowExpression separated ts

/-- The expressions of the branches that stand for something. -/
def choiceExpressions (separated : Bool) : List (List Token) → List (List Char)
  | [] => []
  | branch :: rest =>
    (if branchVanishes branch then [] else [rowExpression separated branch]) ++
      choiceExpressions separated rest

end

/-- The expression that a glob stands for. -/
def expression (g : Glob) : String :=
  let inner := match g.tokens with
    | [.leadingDirectories] => ".*".toList
    | tokens => rowExpression g.separated tokens
  String.ofList ("(?-u)^".toList ++ inner ++ ['$'])

/-! ## Its depth -/

/-- The depth of several things side by side, given their own. -/
def sideBySide : List Nat → Nat
  | [] => 0
  | [d] => d
  | ds => ds.foldl max 0 + 1

def classDepth (ranges : List (Char × Char)) : Nat :=
  let members := ranges.flatMap fun (low, high) =>
    if low = high then String.utf8EncodeChar low
    else (String.utf8EncodeChar low).drop 1 ++ String.utf8EncodeChar high
  1 + sideBySide (members.map fun _ => 0)

mutual

/-- The depths of the parts that a token becomes. -/
def Token.depths (separated : Bool) : Token → List Nat
  | .literal c => (String.utf8EncodeChar c).map fun _ => 0
  | .any => [if separated then 1 else 0]
  | .star => [if separated then 2 else 1]
  | .leadingDirectories | .innerDirectories => [4]
  | .trailingTree => [0, 1]
  | .charClass _ ranges => [classDepth ranges]
  | .choice branches =>
    let depths := choiceDepths separated branches
    if depths.isEmpty then [] else [sideBySide depths + 1]

def rowDepths (separated : Bool) : List Token → List Nat
  | [] => []
  | t :: ts => t.depths separated ++ rowDepths separated ts

/-- The depths of the branches that stand for something. -/
def choiceDepths (separated : Bool) : List (List Token) → List Nat
  | [] => []
  | branch :: rest =>
    (if branchVanishes branch then [] else [sideBySide (rowDepths separated branch)]) ++
      choiceDepths separated rest

end

/-- The depth of the expression of a glob; its two ends are parts of it. -/
def depth (g : Glob) : Nat :=
  sideBySide (0 :: rowDepths g.separated g.tokens ++ [0])

/-- The depth up to which expressions can be read. -/
def depthLimit : Nat := 250

def isTooDeep (g : Glob) : Bool :=
  depthLimit < g.depth

end CompileHost.Glob
