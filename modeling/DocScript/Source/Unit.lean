/-!
# Source units
-/

namespace DocScript

/-- One program document. Its diagnostics carry `id`. -/
structure SourceUnit where
  id : String
  text : String
  deriving DecidableEq, Inhabited, Repr

end DocScript
