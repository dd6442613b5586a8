import CompileHost.Diagnostic.Basic

/-!
# Printing diagnostics

Diagnostics are printed one to a line, with or without colours, and with or without a last line
that counts them.
-/

namespace CompileHost

structure DiagnosticStyle where
  coloured : Bool := true
  summary : Bool := true
  deriving DecidableEq

/-- No colours. -/
def DiagnosticStyle.plain : DiagnosticStyle :=
  { coloured := false }

/-- The number of the colour of a severity on a terminal. -/
def Severity.colour : Severity → Nat
  | error => 31
  | warning => 33
  | message => 36

/-- A text in a colour, and the colour of all other text behind it. -/
def inColour (colour : Nat) (text : String) : String :=
  "\x1b[" ++ toString colour ++ "m" ++ text ++ "\x1b[39m"

/-- The word for a severity in a style. -/
def Severity.label (style : DiagnosticStyle) (s : Severity) : String :=
  if style.coloured then inColour s.colour s.name else s.name

/-- Prints a diagnostic behind what has been printed, on a line of its own. -/
def Diagnostic.printAfter (style : DiagnosticStyle) (printed : String) (d : Diagnostic) : String :=
  let located := match d.file, d.line with
    | some file, some line => printed ++ file ++ ":" ++ toString line ++ ": "
    | some file, none => printed ++ file ++ ": "
    | none, _ => printed
  located ++ d.severity.label style ++ ": " ++ d.message ++ "\n"

namespace Diagnostics

/-- Diagnostics in a style.  Where there are none, nothing is counted. -/
def format (style : DiagnosticStyle) (ds : Diagnostics) : String :=
  let lines := ds.foldl (Diagnostic.printAfter style) ""
  if style.summary && !ds.isEmpty then lines ++ ds.summary.text ++ "\n" else lines

/-- Diagnostics as one text. -/
def text (ds : Diagnostics) : String :=
  ds.format .plain

end Diagnostics

end CompileHost
