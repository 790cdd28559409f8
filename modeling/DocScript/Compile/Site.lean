import DocScript.Compile.Error
import DocScript.Diagnostic
import DocScript.Source.LineIndex

/-!
# Places of diagnostics
-/

namespace DocScript

/-- A unit with the lines of its values: where the diagnostics of the unit point to. -/
structure SourceSite where
  unit : String
  lines : LineIndex

namespace SourceSite

/-- A diagnostic about the value at a path. -/
def diagnose (site : SourceSite) (severity : Severity) (path : SourcePath)
    (error : CompileError) : Diagnostic :=
  ⟨severity, site.unit, site.lines.lineOf path, error.message⟩

/-- An error about the value at a path. -/
def error (site : SourceSite) (path : SourcePath) (error : CompileError) : Diagnostic :=
  site.diagnose .error path error

theorem isError_error (site : SourceSite) (path : SourcePath) (error : CompileError) :
    (site.error path error).isError = true := rfl

end SourceSite

end DocScript
