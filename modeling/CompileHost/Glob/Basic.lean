import CompileHost.Text.Utf8

/-!
# Globs

A glob is a list of tokens that has to match a whole text, byte by byte.  Matching is described by
the places of a text that tokens may lead to, so that a glob matches if it leads to the end.

In a separated glob `?` and `*` do not match a slash, while classes do in every glob.
-/

namespace CompileHost

inductive Glob.Token where
  | literal (c : Char)
  | any
  | star
  /-- `**/` at the beginning: nothing, or directories. -/
  | leadingDirectories
  /-- `/**/` inside: a slash, or directories between two slashes. -/
  | innerDirectories
  /-- `/**` at the end: a slash and anything. -/
  | trailingTree
  | charClass (negated : Bool) (ranges : List (Char × Char))
  | choice (branches : List (List Glob.Token))

structure Glob where
  tokens : List Glob.Token
  separated : Bool

namespace Glob

abbrev Bytes := List UInt8

def slash : UInt8 := 0x2F

/-! ## Marks

A text of `n` bytes has `n + 1` places, one before each byte and one at the end.  Marks tell for
each place whether the tokens so far may account for what lies before it. -/

abbrev Marks := List Bool

/-- Only the beginning is marked. -/
def Marks.first (text : Bytes) : Marks :=
  true :: text.map fun _ => false

/-- Whether the end is marked. -/
def Marks.reachesEnd (marks : Marks) : Bool :=
  marks.getLastD false

/-- The places marked here or there. -/
def Marks.or (here there : Marks) : Marks :=
  List.zipWith (· || ·) here there

/-- The places behind one byte with a property, from a marked place. -/
def Marks.step (p : UInt8 → Bool) (text : Bytes) (marks : Marks) : Marks :=
  false :: List.zipWith (fun marked b => marked && p b) marks text

/-- The places behind any number of bytes with a property, from a marked place or, if `reached` is
set, from the beginning. -/
def Marks.spread (p : UInt8 → Bool) (reached : Bool) : Bytes → Marks → Marks
  | b :: bs, marked :: marks =>
    (reached || marked) :: spread p ((reached || marked) && p b) bs marks
  | [], marked :: _ => [reached || marked]
  | _, [] => []

/-- The places behind given bytes. -/
def Marks.along (word : Bytes) (text : Bytes) (marks : Marks) : Marks :=
  word.foldl (fun marks w => marks.step (· == w) text) marks

/-- The places behind a slash, at any distance. -/
def Marks.behindSlashes (text : Bytes) (marks : Marks) : Marks :=
  (marks.spread (fun _ => true) false text).step (· == slash) text

/-- A range of characters as a set of bytes: the bytes of both ends, and what lies between the last
byte of the one and the first byte of the other. -/
def rangeHas (low high : Char) (b : UInt8) : Bool :=
  let lows := String.utf8EncodeChar low
  let highs := String.utf8EncodeChar high
  lows.contains b || highs.contains b ||
    (low ≠ high && lows.getLastD 0 ≤ b && b ≤ highs.headD 0)

def classHas (negated : Bool) (ranges : List (Char × Char)) (b : UInt8) : Bool :=
  (ranges.any fun (low, high) => rangeHas low high b) != negated

mutual

/-- Whether a token stands for nothing at all. -/
def Token.vanishes : Token → Bool
  | .choice branches => allVanish branches
  | _ => false

def branchVanishes : List Token → Bool
  | [] => true
  | t :: ts => t.vanishes && branchVanishes ts

def allVanish : List (List Token) → Bool
  | [] => true
  | branch :: rest => branchVanishes branch && allVanish rest

end

mutual

/-- The places that a token may lead to. -/
def Token.lead (separated : Bool) (text : Bytes) : Token → Marks → Marks
  | .literal c, marks => marks.along (String.utf8EncodeChar c) text
  | .any, marks => marks.step (fun b => !(separated && b == slash)) text
  | .star, marks => Marks.spread (fun b => !(separated && b == slash)) false text marks
  | .leadingDirectories, marks => marks.or (marks.behindSlashes text)
  | .innerDirectories, marks =>
    let behind := marks.step (· == slash) text
    behind.or (behind.behindSlashes text)
  | .trailingTree, marks =>
    Marks.spread (fun _ => true) false text (marks.step (· == slash) text)
  | .charClass negated ranges, marks => marks.step (classHas negated ranges) text
  | .choice branches, marks =>
    if allVanish branches then marks else leadChoice separated text branches marks

/-- The places that tokens in a row may lead to. -/
def leadRow (separated : Bool) (text : Bytes) : List Token → Marks → Marks
  | [], marks => marks
  | t :: ts, marks => leadRow separated text ts (t.lead separated text marks)

/-- The places that one of several branches may lead to; those that stand for nothing do not
count. -/
def leadChoice (separated : Bool) (text : Bytes) : List (List Token) → Marks → Marks
  | [], marks => marks.map fun _ => false
  | branch :: rest, marks =>
    let others := leadChoice separated text rest marks
    if branchVanishes branch then others else (leadRow separated text branch marks).or others

end

/-- Whether the tokens of a glob account for all of a text.  A lone `**` accounts for everything. -/
def accepts (g : Glob) (text : String) : Bool :=
  match g.tokens with
  | [.leadingDirectories] => true
  | tokens =>
    let bytes := Text.utf8Bytes text
    (leadRow g.separated bytes tokens (.first bytes)).reachesEnd

end Glob

end CompileHost
