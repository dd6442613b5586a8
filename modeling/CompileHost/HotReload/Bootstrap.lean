import CompileHost.Digest
import CompileHost.FileTree.Basic
import CompileHost.HotReload.Exclusion
import CompileHost.HotReload.Runtime
import CompileHost.Path.Canonical
import CompileHost.Reference
import CompileHost.Text.Blank

/-!
# The bootstrap of hot reload

The bootstrap is code that is put into an emitted module, in front of its source-map reference, so
that a component can be swapped while it runs.  It is rendered once from a template, in which words
stand for what the runtime decides; only the identity of the component is filled in for each
module.
-/

namespace CompileHost

open Text

/-- How a live component gets its new form. -/
inductive HotReloadStrategy where
  | rerenderOrReload
  | update
  deriving DecidableEq

/-- What kinds of modules the bootstrap knows. -/
inductive HotReloadTemplate where
  | component
  | universal
  deriving DecidableEq

def RuntimeCapabilities.strategy (c : RuntimeCapabilities) : HotReloadStrategy :=
  if c.rerender && c.reload then .rerenderOrReload else .update

def RuntimeCapabilities.template (c : RuntimeCapabilities) : HotReloadTemplate :=
  if c.wrapsPlainModules then .universal else .component

/-- The lines that update the record of a component. -/
def HotReloadStrategy.lines : HotReloadStrategy → List String
  | rerenderOrReload =>
    ["if (!module.hot.data) \x7b",
     "\thmrAPI.createRecord('COMP_ID', module.exports);",
     "\x7d else if (module.exports.options.render || module.exports.options.template) \x7b",
     "\thmrAPI.rerender('COMP_ID', module.exports);",
     "\x7d else \x7b",
     "\thmrAPI.reload('COMP_ID', module.exports);",
     "\x7d"]
  | update =>
    ["if (!module.hot.data) \x7b",
     "\thmrAPI.createRecord('COMP_ID', module.exports);",
     "\x7d else \x7b",
     "\thmrAPI.update('COMP_ID', module.exports, module.exports.options.template);",
     "\x7d"]

namespace HotReloadTemplate

/-- The lines that both templates begin with. -/
def commonLines : List String :=
  ["if (module.hot) \x7b",
   "\tvar hmrAPI = require('HOTRELOADAPI');",
   "\thmrAPI.install(require('FRAMEWORK'), true);",
   "\tif (!hmrAPI.compatible) \x7b",
   "\t\tconsole.warn('HOTRELOADNAME is not compatible with the installed FRAMEWORK version.');",
   "\t\x7d else \x7b",
   "\t\tif (module.exports.__esModule) module.exports = module.exports.default;"]

/-- The lines before the record is updated. -/
def opening : HotReloadTemplate → List String
  | component => commonLines ++ ["\t\tmodule.hot.accept();"]
  | universal => commonLines ++
    ["\t\tif (typeof module.exports === 'function') \x7b",
     "\t\t\tif (module.exports.super && module.exports.super.name === 'COMPONENT_BASE') \x7b",
     "\t\t\t\tmodule.hot.accept();"]

/-- The lines behind that. -/
def closing : HotReloadTemplate → List String
  | component => ["\t\x7d", "\x7d"]
  | universal =>
    ["\t\t\t\x7d else \x7b",
     "\t\t\t\tmodule.exports = require('UDMODULE').defn(module, module.exports);",
     "\t\t\t\x7d",
     "\t\t\x7d else \x7b",
     "\t\t\tmodule.exports = require('UDMODULE').defobj(module, module.exports);",
     "\t\t\x7d",
     "\t\x7d",
     "\x7d"]

/-- How deep the update of the record stands. -/
def depth : HotReloadTemplate → Nat
  | component => 2
  | universal => 4

/-- The text of a template with the lines of a strategy. -/
def text (template : HotReloadTemplate) (strategy : HotReloadStrategy) : List Char :=
  let indent := List.replicate template.depth '\t'
  let lines := template.opening.map String.toList ++
    strategy.lines.map (fun line => indent ++ line.toList) ++ template.closing.map String.toList
  lines.flatMap (· ++ ['\n'])

end HotReloadTemplate

namespace HotReload

/-- The module that a helper is required from: its own name if it is installed at the top, and one
in the fallback directory otherwise. -/
def helperModule (t : FileTree) (currentDirectory fallback name : String) : String :=
  let modules := Reference.inDirectory currentDirectory "node_modules"
  if t.exists? (Reference.inDirectory modules name) then name
  else String.ofList (dropEndWhile (· = '/') fallback.toList) ++ "/" ++ name

/-- The words of the template that the runtime decides, in the order in which they are filled
in. -/
def words (t : FileTree) (currentDirectory : String) (r : HotReloadRuntime) :
    List (String × String) :=
  let locate := helperModule t currentDirectory r.fallbackDirectory
  [("HOTRELOADAPI", locate r.hotReloadApi),
   ("HOTRELOADNAME", r.hotReloadApi),
   ("UDMODULE", locate r.updateModule),
   ("COMPONENT_BASE", r.componentBase),
   ("FRAMEWORK", r.framework)]

/-- Fills in words one after the other. -/
def fill (words : List (String × String)) (cs : List Char) : List Char :=
  words.foldl (fun cs (word, value) => replaceWord word.toList value.toList cs) cs

/-- The bootstrap for a runtime, without the identity of the component. -/
def bootstrap (t : FileTree) (currentDirectory : String) (r : HotReloadRuntime) : String :=
  let template := r.capabilities.template
  String.ofList (fill (words t currentDirectory r) (template.text r.capabilities.strategy))

/-- What begins the source-map reference of a module. -/
def sourceMapMark : List Char := "//# sourceMappingURL".toList

/-- Puts code in front of the source-map reference, or behind a module that has none. -/
def splice (text snippet : String) : String :=
  match splitBefore? sourceMapMark text.toList with
  | some (before, rest) => String.ofList before ++ snippet ++ String.ofList rest
  | none => String.ofList (trim text.toList) ++ "\n" ++ snippet

/-- The identity of the component of a source. -/
def componentId (source : CanonicalPath) : String :=
  Digest.ofText source.text

end HotReload

/-- What puts the bootstrap into modules. -/
structure HotReloader where
  bootstrap : String
  strategy : HotReloadStrategy
  template : HotReloadTemplate
  exclusion : Exclusion

namespace HotReloader

/-- Renders the bootstrap.  Helpers are looked for around `currentDirectory`. -/
def of (t : FileTree) (currentDirectory : String) (r : HotReloadRuntime)
    (excluded : List String) : Except Glob.Error HotReloader :=
  (Exclusion.of excluded).map fun exclusion =>
    { bootstrap := HotReload.bootstrap t currentDirectory r
      strategy := r.capabilities.strategy
      template := r.capabilities.template
      exclusion }

/-- Declarations and excluded names get no bootstrap. -/
def applies (h : HotReloader) (output : CanonicalPath) (name : String) : Bool :=
  !".d.ts".toList.isSuffixOf output.text.toList && !h.exclusion.isMatch name

/-- The bootstrap of a component. -/
def snippet (h : HotReloader) (id : String) : String :=
  String.ofList (replaceWord "COMP_ID".toList id.toList h.bootstrap.toList)

def inject (h : HotReloader) (text id : String) : String :=
  HotReload.splice text (h.snippet id)

end HotReloader

end CompileHost
