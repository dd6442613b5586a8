import CompileHost.Diagnostic.Basic
import CompileHost.FileTree.Basic
import CompileHost.Settings.Target
import CompileHost.SourceCache

/-!
# The engine and its questions

An engine parses and checks sources, and emits code.  While it compiles it talks to its host: it
asks one question after the other, and goes on as the answers demand, until it has its
diagnostics.  A `Talk` is such a conversation as the engine sees it; every one comes to an end.
-/

namespace CompileHost

/-- Whether a program is built to find out its dependencies, or to emit code. -/
inductive CompileMode where
  | discover
  | emit
  deriving DecidableEq

/-- What an engine asks of its host. -/
inductive Query where
  | sourceFile (name : String)
  | defaultLibraryName
  | emitText (name text : String)
  | currentDirectory
  | canonicalName (name : String)
  | isCaseSensitive
  | newLine
  | fileExists (name : String)
  | fileText (name : String)
  | directoryExists (name : String)
  | directories (name : String)
  | environmentVariable (name : String)
  | realPath (name : String)
  | trace (message : String)
  | report (diagnostic : Diagnostic)
  deriving DecidableEq

/-- The kind of answer that a question gets. -/
abbrev Query.Reply (P : Type) : Query → Type
  | sourceFile _ => Option (Parsed P)
  | defaultLibraryName => String
  | emitText _ _ => Unit
  | currentDirectory => String
  | canonicalName _ => String
  | isCaseSensitive => Bool
  | newLine => String
  | fileExists _ => Bool
  | fileText _ => Option String
  | directoryExists _ => Bool
  | directories _ => List String
  | environmentVariable _ => Option String
  | realPath _ => Except FileTree.Fault String
  | trace _ => Unit
  | report _ => Unit

/-- A conversation that ends with a result. -/
inductive Talk (P α : Type) where
  | done (result : α)
  | ask (q : Query) (next : q.Reply P → Talk P α)

/-- A conversation with a host whose state is carried along. -/
def Talk.run {P α σ : Type} (answer : σ → (q : Query) → σ × q.Reply P) : Talk P α → σ → σ × α
  | .done result, s => (s, result)
  | .ask q next, s =>
    let (s, reply) := answer s q
    Talk.run answer (next reply) s

/-- What an engine hands back: its diagnostics, and notes for whoever runs it. -/
structure CompileReport (N : Type) where
  diagnostics : Diagnostics
  notes : N

/-- An engine whose parsed sources are of type `P` and whose notes are of type `N`. -/
structure Engine (P N : Type) where
  parse : String → String → Target → P
  libraryDirectory : String
  defaultLibraryName : Target → String
  /-- Whether every module of a dependency has to be given as a root. -/
  needsDependencyRoots : Bool
  compile : List String → CompileMode → Talk P (CompileReport N)

end CompileHost
