import CompileHost.Glob.Basic

/-!
# Reading globs

A glob is read character by character.  `?` and `*` stand for any character and any text, `**` as
a whole segment for any directories, `[…]` for one character of a class and `{…,…}` for one of
several globs; a backslash takes the next character literally.
-/

namespace CompileHost.Glob

/-- Why a text is no glob. -/
inductive Fault where
  | unclosedClass
  | badRange (low high : Char)
  | unopenedChoice
  | unclosedChoice
  | danglingEscape
  deriving DecidableEq

def Fault.message : Fault → String
  | unclosedClass => "unclosed character class; missing ']'"
  | badRange low high =>
    "invalid range; '" ++ String.ofList [low] ++ "' > '" ++ String.ofList [high] ++ "'"
  | unopenedChoice => "unopened alternate group; missing '\x7b' (maybe escape '\x7d' with '[\x7d]'?)"
  | unclosedChoice => "unclosed alternate group; missing '\x7d' (maybe escape '\x7b' with '[\x7b]'?)"
  | danglingEscape => "dangling '\\'"

/-- A class that is being read: whether anything but its negation has been read, its ranges, the
last one first, and whether a `-` waits for the end of the last range. -/
structure ClassReader where
  begun : Bool := false
  negated : Bool := false
  ranges : List (Char × Char) := []
  inRange : Bool := false

/-- What a character makes of a class. -/
inductive ClassStep where
  | more (reader : ClassReader)
  | closed (token : Token)
  | fault (f : Fault)

namespace ClassReader

/-- A class with one more range, which ends the last one if a `-` waits. -/
def add (k : ClassReader) (c : Char) : ClassStep :=
  match k.inRange, k.ranges with
  | true, (low, _) :: rest =>
    if c < low then .fault (.badRange low c)
    else .more { k with begun := true, ranges := (low, c) :: rest, inRange := false }
  | _, ranges => .more { k with begun := true, ranges := (c, c) :: ranges, inRange := false }

/-- The class as it stands at its end; a `-` that still waits stands for itself. -/
def close (k : ClassReader) : Token :=
  .charClass k.negated (if k.inRange then ('-', '-') :: k.ranges else k.ranges).reverse

def step (k : ClassReader) (c : Char) : ClassStep :=
  if c = ']' ∧ k.begun then .closed k.close
  else if c = '-' ∧ k.begun ∧ !k.inRange then .more { k with inRange := true }
  else k.add c

end ClassReader

/-- A list of globs that is being read: the branches that are complete and the tokens of the one
that is not, both the last one first. -/
structure Level where
  branches : List (List Token) := []
  tokens : List Token := []

/-- The innermost level and those around it. -/
structure Levels where
  inner : Level
  outer : List Level

namespace Levels

def push (s : Levels) (t : Token) : Levels :=
  { s with inner := { s.inner with tokens := t :: s.inner.tokens } }

/-- Opens a choice. -/
def enter (s : Levels) : Levels :=
  ⟨{}, s.inner :: s.outer⟩

/-- Ends a branch; outside of choices a comma stands for itself. -/
def comma (s : Levels) : Levels :=
  if s.outer.isEmpty then s.push (.literal ',')
  else { s with inner := ⟨s.inner.tokens.reverse :: s.inner.branches, []⟩ }

/-- Closes a choice. -/
def leave (s : Levels) : Except Fault Levels :=
  match s.outer with
  | [] => .error .unopenedChoice
  | level :: outer =>
    let branches := (s.inner.tokens.reverse :: s.inner.branches).reverse
    .ok (Levels.push ⟨level, outer⟩ (.choice branches))

/-- Takes in `**`, of which the characters before and behind are given, and tells whether the one
behind is taken in with it. -/
def doubleStar (s : Levels) (before behind : Option Char) : Levels × Bool :=
  let nested := !s.outer.isEmpty
  let plain := ((s.push .star).push .star, false)
  let endsHere := behind.isNone || (nested && (behind = some ',' || behind = some '\x7d'))
  match s.inner.tokens with
  | [] =>
    if behind.all (· = '/') then (s.push .leadingDirectories, true) else plain
  | last :: tokens =>
    if before ≠ some '/' ∧ ¬ (nested ∧ (before = some ',' ∨ before = some '\x7b')) then plain
    else if !endsHere && behind ≠ some '/' then plain
    else
      let without : Levels := { s with inner := { s.inner with tokens } }
      let token := match last with
        | .leadingDirectories => Token.leadingDirectories
        | .trailingTree => .trailingTree
        | _ => if endsHere then .trailingTree else .innerDirectories
      (without.push token, behind = some '/')

end Levels

/-- Where the reading stands: between tokens, behind a backslash, or inside a class. -/
inductive Mode where
  | plain
  | escaped
  | inClass (reader : ClassReader) (first : Bool)

/-- Reads on behind the character `before`. -/
def read : Mode → Option Char → Levels → List Char → Except Fault Levels
  | .plain, _, s, [] => .ok s
  | .escaped, _, _, [] => .error .danglingEscape
  | .inClass _ _, _, _, [] => .error .unclosedClass
  | .escaped, _, s, c :: cs => read .plain (some c) (s.push (.literal c)) cs
  | .inClass k first, _, s, c :: cs =>
    if first ∧ (c = '!' ∨ c = '^') then
      read (.inClass { k with negated := true } false) (some c) s cs
    else
      match k.step c with
      | .more k => read (.inClass k false) (some c) s cs
      | .closed token => read .plain (some c) (s.push token) cs
      | .fault f => .error f
  | .plain, before, s, c :: cs =>
    if c = '*' then
      match cs with
      | '*' :: cs =>
        let (s, taken) := s.doubleStar before cs.head?
        match taken, cs with
        | true, d :: cs => read .plain (some d) s cs
        | _, cs => read .plain (some '*') s cs
      | cs => read .plain (some '*') (s.push .star) cs
    else if c = '?' then read .plain (some c) (s.push .any) cs
    else if c = '[' then read (.inClass {} true) (some c) s cs
    else if c = '\x7b' then read .plain (some c) s.enter cs
    else if c = '\x7d' then
      match s.leave with
      | .ok s => read .plain (some c) s cs
      | .error f => .error f
    else if c = ',' then read .plain (some c) s.comma cs
    else if c = '\\' then read .escaped (some c) s cs
    else read .plain (some c) (s.push (.literal c)) cs

/-- The glob that a text stands for. -/
def parse (separated : Bool) (pattern : String) : Except Fault Glob :=
  (read .plain none ⟨{}, []⟩ pattern.toList).bind fun s =>
    if s.outer.isEmpty then .ok ⟨s.inner.tokens.reverse, separated⟩
    else .error .unclosedChoice

end CompileHost.Glob
