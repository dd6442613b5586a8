import CompileHost.Preprocess.Condition
import CompileHost.Text.Word

/-!
# Directives in comments

Directives stand in comments, so that a text is well-formed before it is processed.  In scripts a
directive fills a whole line, `// @if …`, or a comment `/* @if … */`; in markup it fills a comment
`<!-- @if … -->`.  A directive on a line of its own takes the end of the line with it.
-/

namespace CompileHost

open Text

/-- The comments that directives are written in. -/
inductive SourceKind where
  | script
  | markup
  deriving DecidableEq

inductive Directive where
  | opening (condition : Condition)
  | otherwise
  | closing
  | exclude
  | endExclude
  | echo (name : String)
  deriving DecidableEq

namespace Directive

/-- The directive with a given keyword and argument. -/
def of? (keyword : String) (argument : List Char) : Option Directive :=
  match keyword with
  | "if" => some (opening (.parse argument))
  | "ifdef" => some (opening (.isDefined (Condition.nameOf argument)))
  | "ifndef" => some (opening (.isNotDefined (Condition.nameOf argument)))
  | "else" => some otherwise
  | "endif" => some closing
  | "exclude" => some exclude
  | "endexclude" => some endExclude
  | "echo" => some (echo (Condition.nameOf argument))
  | _ => none

/-- Reads the beginning of a directive: a mark that opens the comment, `@`, and the keyword, a
whole word. -/
def keyword? (mark : List Char) (cs : List Char) : Option (String × List Char) :=
  (stripStart? mark cs).bind fun cs =>
    match cs.dropWhile isLineBlank with
    | '@' :: cs => some (String.ofList (cs.takeWhile isWord), cs.dropWhile isWord)
    | _ => none

/-- The text behind the end of a line. -/
def afterLine? : List Char → Option (List Char)
  | [] => some []
  | '\n' :: cs => some cs
  | '\r' :: '\n' :: cs => some cs
  | _ => none

def endsLine (c : Char) : Bool :=
  c == '\n' || c == '\r'

/-- Reads a directive that fills a line.  An echo never does. -/
def onLine? (cs : List Char) : Option (Directive × List Char) :=
  (keyword? "//".toList (cs.dropWhile isLineBlank)).bind fun (keyword, cs) =>
    (afterLine? (cs.dropWhile (!endsLine ·))).bind fun rest =>
      if keyword = "echo" then none
      else
        (of? keyword (stripBoth isLineBlank (cs.takeWhile (!endsLine ·)))).map fun d => (d, rest)

/-- Reads a directive that fills a comment of a script.  Its argument has no `*`. -/
def inComment? (cs : List Char) : Option (Directive × List Char) :=
  (keyword? "/*".toList cs).bind fun (keyword, cs) =>
    (stripStart? "*/".toList (cs.dropWhile (· ≠ '*'))).bind fun rest =>
      (of? keyword (stripBoth isLineBlank (cs.takeWhile (· ≠ '*')))).map fun d => (d, rest)

/-- Reads a directive that fills a comment of markup.  Its argument stays on the line. -/
def inMarkup? (cs : List Char) : Option (Directive × List Char) :=
  (keyword? "<!--".toList cs).bind fun (keyword, cs) =>
    (splitBefore? "-->".toList cs).bind fun (argument, rest) =>
      if argument.contains '\n' then none
      else (of? keyword (stripBoth isLineBlank argument)).map fun d => (d, rest.drop 3)

/-- Recognises the directives of a kind of text. -/
def recogniser : SourceKind → Recogniser Directive
  | .script => fun before cs =>
    let line := if before.all (· = '\n') then reading onLine? before cs else none
    line.or (reading inComment? before cs)
  | .markup => reading inMarkup?

end Directive

end CompileHost
