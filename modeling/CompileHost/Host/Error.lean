import CompileHost.Diagnostic.Basic
import CompileHost.Glob.Collection
import CompileHost.Settings.Decode

/-!
# Errors of a host

A host cannot be built from bad settings, and a pass fails if an error is reported in it.
-/

namespace CompileHost

inductive HostError where
  | buildFailed (diagnostics : Diagnostics)
  | badMarkupOptions (error : DecodeError)
  | badExclusion (error : Glob.Error)
  /-- The current directory is the empty path. -/
  | noDirectory

namespace HostError

/-- The wording of an error. -/
def message : HostError → String
  | buildFailed ds => "build failed: " ++ ds.summary.text
  | badMarkupOptions e => "invalid markup minify options: " ++ e.message
  | badExclusion e => "invalid hot-reload exclusion pattern: " ++ e.message
  | noDirectory => "I/O error: cannot make an empty path absolute"

/-- Whether there is an error at the bottom of it. -/
def isFatal : HostError → Bool
  | buildFailed ds => ds.hasErrors
  | _ => true

end HostError

end CompileHost
