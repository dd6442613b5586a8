/-!
# Diagnostics

What an engine reports about sources.  Only an error makes a pass fail.
-/

namespace CompileHost

inductive Severity where
  | error
  | warning
  | message
  deriving DecidableEq

structure Diagnostic where
  severity : Severity
  file : Option String
  line : Option Nat
  message : String
  deriving DecidableEq

def Severity.name : Severity → String
  | error => "error"
  | warning => "warning"
  | message => "message"

namespace Diagnostic

def isFatal (d : Diagnostic) : Bool :=
  d.severity = .error

/-- Where a diagnostic points to; a line without a file points nowhere. -/
def location (d : Diagnostic) : String :=
  match d.file, d.line with
  | some file, some line => file ++ ":" ++ toString line ++ ": "
  | some file, none => file ++ ": "
  | none, _ => ""

/-- A diagnostic as one text. -/
def text (d : Diagnostic) : String :=
  d.location ++ d.severity.name ++ ": " ++ d.message

end Diagnostic

/-- Diagnostics in the order in which they were reported. -/
abbrev Diagnostics := List Diagnostic

namespace Diagnostics

def hasErrors (ds : Diagnostics) : Bool :=
  ds.any Diagnostic.isFatal

def errors (ds : Diagnostics) : Diagnostics :=
  ds.filter Diagnostic.isFatal

end Diagnostics

/-- How many errors and warnings there are. -/
structure DiagnosticSummary where
  errors : Nat
  warnings : Nat
  deriving DecidableEq

/-- Counts the errors and the warnings. -/
def Diagnostics.summary (ds : Diagnostics) : DiagnosticSummary where
  errors := ds.countP (·.severity = .error)
  warnings := ds.countP (·.severity = .warning)

namespace DiagnosticSummary

def total (s : DiagnosticSummary) : Nat :=
  s.errors + s.warnings

/-- A number of things, with an `s` unless it is one. -/
def counted (n : Nat) (noun : String) : String :=
  toString n ++ " " ++ noun ++ if n = 1 then "" else "s"

def text (s : DiagnosticSummary) : String :=
  match s.errors, s.warnings with
  | 0, 0 => "no diagnostics"
  | e, 0 => counted e "error"
  | 0, w => counted w "warning"
  | e, w => counted e "error" ++ ", " ++ counted w "warning"

end DiagnosticSummary

end CompileHost
