import CompileHost.Markup.Options
import CompileHost.Text.Blank
import CompileHost.Text.Scan
import CompileHost.Text.Word

/-!
# Small markup

Markup gets smaller in up to seven steps, each of which an option turns on:

* comments go, and the document type gets short;
* closing tags go that a reader of markup supplies by itself;
* white space between tags goes, except for one space between two inline elements, other runs of
  white space shrink to one space, and both ends are trimmed;
* attributes with an empty value go, attributes that need no value lose it, and values that need
  no quotes lose those.
-/

namespace CompileHost.Markup

open Text

/-! ## Comments and tags -/

/-- Reads a comment. -/
def comment? (cs : List Char) : Option (Unit × List Char) :=
  (stripStart? "<!--".toList cs).bind fun cs =>
    (splitBefore? "-->".toList cs).map fun (_, rest) => ((), rest.drop 3)

def removeComments (cs : List Char) : List Char :=
  replace (reading comment?) (fun _ => []) cs

/-- What follows a word of lower-case letters, the case of which does not count. -/
def stripName? (name : List Char) (cs : List Char) : Option (List Char) :=
  if (cs.take name.length).map Char.toLower = name then some (cs.drop name.length) else none

/-- Reads a document type. -/
def doctype? (cs : List Char) : Option (Unit × List Char) :=
  (stripName? "<!doctype".toList cs).bind fun cs =>
    match cs.dropWhile (· ≠ '>') with
    | '>' :: rest => some ((), rest)
    | _ => none

def shortenDoctype (cs : List Char) : List Char :=
  replace (reading doctype?) (fun _ => "<!DOCTYPE html>".toList) cs

/-- Elements that end by themselves. -/
def selfEnding : List String :=
  ["li", "option", "tr", "td", "th", "dt", "dd"]

/-- Reads a closing tag that may be left out. -/
def optionalClose? (cs : List Char) : Option (Unit × List Char) :=
  (stripStart? "</".toList cs).bind fun cs =>
    selfEnding.findSome? fun name =>
      (stripName? name.toList cs).bind fun cs =>
        match cs with
        | '>' :: rest => some ((), rest)
        | _ => none

def removeOptionalTags (cs : List Char) : List Char :=
  replace (reading optionalClose?) (fun _ => []) cs

/-! ## White space -/

/-- Elements that stand in a line of text. -/
def inlineTags : List String :=
  ["a", "abbr", "b", "bdi", "bdo", "big", "button", "cite", "code", "del", "dfn", "em", "font",
   "i", "img", "input", "ins", "kbd", "label", "mark", "q", "s", "samp", "select", "small",
   "span", "strike", "strong", "sub", "sup", "textarea", "time", "tt", "u", "var"]

def isTagChar (c : Char) : Bool :=
  c.isAlphanum || c == '-'

/-- The name of the tag of which the text behind `<` is given. -/
def tagName (cs : List Char) : List Char :=
  match cs with
  | '/' :: rest => rest.takeWhile isTagChar
  | _ => cs.takeWhile isTagChar

/-- Whether the text behind a `<` begins an inline element. -/
def isInline (cs : List Char) : Bool :=
  inlineTags.any fun name => name.toList = (tagName cs).map Char.toLower

/-- The length of the white space between two tags, their brackets counted. -/
def gap? : List Char → Option Nat
  | '>' :: cs =>
    let size := (cs.takeWhile isBlank).length
    if 0 < size ∧ (cs.drop size).head? = some '<' then some (size + 2) else none
  | _ => none

/-- Closes the gaps between tags.  `tag` is the text behind the last `<`, which is empty if there
was none, and `skip` counts the characters of a gap that are still to come. -/
def closeGapsFrom (tag : List Char) : Nat → List Char → List Char
  | _, [] => []
  | skip + 1, c :: cs => closeGapsFrom (if c = '<' then cs else tag) skip cs
  | 0, c :: cs =>
    match gap? (c :: cs) with
    | some size =>
      let next := (c :: cs).drop size
      (if isInline tag && isInline next then "> <".toList else "><".toList) ++
        closeGapsFrom tag (size - 1) cs
    | none => c :: closeGapsFrom (if c = '<' then cs else tag) 0 cs

def closeGaps (cs : List Char) : List Char :=
  closeGapsFrom [] 0 cs

/-- Reads two or more characters of white space, or one that breaks the line. -/
def blankRun? (cs : List Char) : Option (Unit × List Char) :=
  let run := cs.takeWhile isBlank
  if 2 ≤ run.length ∨ run = ['\t'] ∨ run = ['\r'] ∨ run = ['\n'] then
    some ((), cs.dropWhile isBlank)
  else none

def squeezeBlanks (cs : List Char) : List Char :=
  replace (reading blankRun?) (fun _ => [' ']) cs

def collapseWhitespace (cs : List Char) : List Char :=
  trim (squeezeBlanks (closeGaps cs))

/-! ## Attributes -/

def isLowerLetter (c : Char) : Bool :=
  'a' ≤ c && c ≤ 'z'

/-- Attributes that may go when they are empty; handlers of events are such, too. -/
def maybeEmpty : List String :=
  ["class", "id", "style", "title", "lang", "dir"]

def mayBeEmpty (name : List Char) : Bool :=
  maybeEmpty.contains (String.ofList name) || (startsWith name "on".toList && 2 < name.length)

/-- Reads white space, a name of lower-case letters, and `=`. -/
def plainName? : List Char → Option (Char × List Char × List Char)
  | blank :: cs =>
    match cs.dropWhile isLowerLetter with
    | '=' :: rest => if isBlank blank then some (blank, cs.takeWhile isLowerLetter, rest) else none
    | _ => none
  | [] => none

/-- Reads an attribute with nothing between its quotes. -/
def emptyAttribute? (cs : List Char) : Option (Unit × List Char) :=
  (plainName? cs).bind fun (_, name, cs) =>
    if !mayBeEmpty name then none
    else
      match cs with
      | '"' :: '"' :: rest => some ((), rest)
      | '\'' :: '\'' :: rest => some ((), rest)
      | _ => none

def removeEmptyAttributes (cs : List Char) : List Char :=
  replace (reading emptyAttribute?) (fun _ => []) cs

/-- Attributes that are true when they are there. -/
def booleanNames : List String :=
  ["checked", "disabled", "selected", "readonly", "required", "multiple", "hidden", "autofocus",
   "autoplay", "controls", "loop", "muted", "novalidate", "open"]

/-- Reads anything between two quotes of one kind. -/
def quotedText? : List Char → Option (List Char)
  | q :: cs =>
    if isQuote q then
      match cs.dropWhile (· ≠ q) with
      | _ :: rest => some rest
      | [] => none
    else none
  | [] => none

/-- Reads an attribute that needs no value; what is kept is the white space and the name. -/
def booleanAttribute? (cs : List Char) : Option (List Char × List Char) :=
  (plainName? cs).bind fun (blank, name, cs) =>
    if booleanNames.contains (String.ofList name) then
      (quotedText? cs).map fun rest => (blank :: name, rest)
    else none

def collapseBooleanAttributes (cs : List Char) : List Char :=
  replace (reading booleanAttribute?) id cs

/-- A character that an unquoted value can have. -/
def isPlainValueChar (c : Char) : Bool :=
  !(isBlank c || isQuote c || c == '=' || c == '<' || c == '>' || c == '\x60')

/-- Reads a value between quotes that it does not need. -/
def plainValue? : List Char → Option (List Char × List Char)
  | q :: cs =>
    let value := cs.takeWhile isPlainValueChar
    if isQuote q ∧ value ≠ [] ∧ (cs.dropWhile isPlainValueChar).head? = some q then
      some (value, (cs.dropWhile isPlainValueChar).drop 1)
    else none
  | [] => none

/-- The first `size` characters of a text as a name, with `=` and a value that needs no quotes
behind it. -/
def attributeAt? (cs : List Char) (size : Nat) : Option (List Char × List Char) :=
  match cs.drop size with
  | '=' :: rest =>
    (plainValue? rest).map fun (value, rest) => (cs.take size ++ '=' :: value, rest)
  | _ => none

/-- An attribute with a name of at most `size` characters, and of as many as possible. -/
def longestAttribute? (cs : List Char) : Nat → Option (List Char × List Char)
  | 0 => attributeAt? cs 0
  | size + 1 => (attributeAt? cs (size + 1)).or (longestAttribute? cs size)

/-- Reads an attribute whose value needs no quotes.  The characters `extra` can stand anywhere in
its name. -/
def quotedAttribute? (extra : List Char) : List Char → Option (List Char × List Char)
  | blank :: first :: cs =>
    let isFirst := first.isAlpha || first == '_' || extra.contains first
    if isBlank blank && isFirst then
      let run := cs.takeWhile fun c => isWord c || c == '.' || c == '-' || extra.contains c
      (longestAttribute? cs run.length).map fun (text, rest) => (blank :: first :: text, rest)
    else none
  | _ => none

def removeQuotes (surround : List String) (cs : List Char) : List Char :=
  replace (reading (quotedAttribute? (surround.flatMap String.toList))) id cs

/-! ## All steps -/

/-- A step that is taken if an option is on. -/
def stepIf (on : Bool) (step : List Char → List Char) (cs : List Char) : List Char :=
  if on then step cs else cs

def minifyChars (o : Options) (cs : List Char) : List Char :=
  let cs := stepIf o.removeComments removeComments cs
  let cs := stepIf o.useShortDoctype shortenDoctype cs
  let cs := stepIf o.removeOptionalTags removeOptionalTags cs
  let cs := stepIf o.collapseWhitespace collapseWhitespace cs
  let cs := stepIf o.removeEmptyAttributes removeEmptyAttributes cs
  let cs := stepIf o.collapseBooleanAttributes collapseBooleanAttributes cs
  stepIf o.removeAttributeQuotes (removeQuotes o.customAttrSurround) cs

/-- Markup made small. -/
def minify (o : Options) (html : String) : String :=
  String.ofList (minifyChars o html.toList)

end CompileHost.Markup
