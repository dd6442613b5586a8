import CompileHost.Environment
import CompileHost.Text.Blank

/-!
# Conditions

A condition asks whether a name is defined, whether it stands for something true, or whether it
stands for a given text.  `Condition.parse` reads the forms `V == 'x'`, `V = 'x'`, `V != 'x'`,
`!V` and `V`; the quotes may be of either kind, and may be left out.
-/

namespace CompileHost

open Text

inductive Condition where
  | isText (name value : String)
  | isNotText (name value : String)
  | isTrue (name : String)
  | isNotTrue (name : String)
  | isDefined (name : String)
  | isNotDefined (name : String)
  deriving DecidableEq

namespace Condition

/-- A name stands for something true if its text is neither empty nor `false` nor `0`. -/
def truthy (defs : Definitions) (name : String) : Bool :=
  match defs[name]? with
  | some value => value ≠ "" && value ≠ "false" && value ≠ "0"
  | none => false

def holds (defs : Definitions) : Condition → Bool
  | isText name value => defs[name]? = some value
  | isNotText name value => defs[name]? ≠ some value
  | isTrue name => truthy defs name
  | isNotTrue name => !truthy defs name
  | isDefined name => defs.contains name
  | isNotDefined name => !defs.contains name

/-- A name without the white space around it. -/
def nameOf (cs : List Char) : String :=
  String.ofList (trim cs)

def isNameStart (c : Char) : Bool :=
  c.isAlpha || c == '_'

def isNameChar (c : Char) : Bool :=
  c.isAlphanum || c == '_'

/-- A value without the quote in front of it and the one behind it; each may be missing. -/
def unquote (cs : List Char) : List Char :=
  let cs := match cs with
    | c :: rest => if isQuote c then rest else cs
    | [] => []
  match cs.getLast? with
  | some c => if isQuote c then cs.dropLast else cs
  | none => cs

/-- Reads an operator: whether it asks for equality, and the text behind it. -/
def operator? : List Char → Option (Bool × List Char)
  | '=' :: '=' :: cs => some (true, cs)
  | '!' :: '=' :: cs => some (false, cs)
  | '=' :: cs => some (true, cs)
  | _ => none

/-- Reads a comparison.  Its value ends with the text, and does not go over a line. -/
def comparison? (cs : List Char) : Option Condition :=
  let name := cs.takeWhile isNameChar
  if !(cs.head?.any isNameStart) then none
  else
    (operator? ((cs.dropWhile isNameChar).dropWhile isBlank)).bind fun (equal, rest) =>
      let value := unquote (rest.dropWhile isBlank)
      if value.contains '\n' then none
      else if equal then some (isText (String.ofList name) (String.ofList value))
      else some (isNotText (String.ofList name) (String.ofList value))

/-- The condition that a text stands for. -/
def parse (cs : List Char) : Condition :=
  let cs := trim cs
  match comparison? cs with
  | some comparison => comparison
  | none =>
    match cs with
    | '!' :: name => isNotTrue (nameOf name)
    | _ => isTrue (nameOf cs)

end Condition

end CompileHost
