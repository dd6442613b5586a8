import CompileHost.FileTree.Basic
import CompileHost.Path.Lexical
import CompileHost.Text.Blank
import CompileHost.Text.Word

/-!
# References to component resources

Emitted code names the template and the style of a component by file, `templateUrl: './card.html'`.
A resolved reference loads the file instead, `template: require('./card.html')`, or stands for an
empty text where there is no such file.
-/

namespace CompileHost

open Text

/-- What is referred to. -/
inductive ResourceKind where
  | template
  | style
  deriving DecidableEq

namespace ResourceKind

/-- The property that holds the resource itself. -/
def property : ResourceKind → String
  | template => "template"
  | style => "style"

/-- The property that refers to a file. -/
def urlProperty (kind : ResourceKind) : String :=
  kind.property ++ "Url"

/-- How the name of a file has to end. -/
def ending : ResourceKind → List Char
  | template => ".html".toList
  | style => []

end ResourceKind

namespace Reference

def isFileNameChar (c : Char) : Bool :=
  isWord c || c == '.' || c == '-'

/-- A name that ends as the kind demands, with something before that. -/
def isFileName (kind : ResourceKind) (name : List Char) : Bool :=
  kind.ending.isSuffixOf name && kind.ending.length < name.length

/-- A file name on its own, or one with directories in front, the first of which is `.` or `..`. -/
def isReference (kind : ResourceKind) (value : List Char) : Bool :=
  match splitAt '/' value with
  | [name] => isFileName kind name
  | first :: rest =>
    (first = ['.'] || first = ['.', '.']) && rest.all (· ≠ []) && isFileName kind (rest.getLastD [])
  | [] => false

/-- The text behind a quote of either kind. -/
def afterQuote? : List Char → Option (List Char)
  | c :: cs => if isQuote c then some cs else none
  | [] => none

/-- Reads a property that refers to a file, and keeps the reference. -/
def read? (kind : ResourceKind) (cs : List Char) : Option (List Char × List Char) :=
  (stripStart? kind.urlProperty.toList cs).bind fun cs =>
    match cs.dropWhile isBlank with
    | ':' :: cs =>
      (afterQuote? (cs.dropWhile isBlank)).bind fun cs =>
        let value := cs.takeWhile fun c => isFileNameChar c || c == '/'
        if isReference kind value then
          (afterQuote? (cs.drop value.length)).map fun rest => (value, rest)
        else none
    | _ => none

/-- A reference that starts from the directory of the source. -/
def fromSource (value : List Char) : String :=
  if value.head? = some '.' then String.ofList value else "./" ++ String.ofList value

/-- A file in a directory, unless it has a place of its own. -/
def inDirectory (directory file : String) : String :=
  if file.toList.head? = some '/' then file
  else if directory = "" ∨ Path.endsWithSlash directory then directory ++ file
  else directory ++ "/" ++ file

/-- The property that takes the place of a reference. -/
def replacement (t : FileTree) (directory : String) (kind : ResourceKind) (value : List Char) :
    String :=
  let file := fromSource value
  if t.isFile (inDirectory directory file) then kind.property ++ ": require('" ++ file ++ "')"
  else kind.property ++ ": ''"

/-- Whether a text refers to a resource of a kind. -/
def occurs (kind : ResourceKind) (text : String) : Bool :=
  Text.occurs (reading (read? kind)) text.toList

/-- Resolves the references of one kind in a source of a directory. -/
def resolve (t : FileTree) (directory : String) (kind : ResourceKind) (text : String) : String :=
  String.ofList
    (replace (reading (read? kind)) (fun value => (replacement t directory kind value).toList)
      text.toList)

/-- Resolves all references. -/
def resolveAll (t : FileTree) (directory text : String) : String :=
  resolve t directory .style (resolve t directory .template text)

end Reference

end CompileHost
