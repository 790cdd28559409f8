import DocScript.Value.Kind

/-!
# Errors of artifacts
-/

namespace DocScript

/-- A number that an artifact holds in front of what it counts. -/
inductive CountField where
  | functions
  | locals
  | params
  | codeBytes
  | constants
  deriving DecidableEq, Repr

def CountField.name : CountField → String
  | .functions => "function count"
  | .locals => "local count"
  | .params => "param count"
  | .codeBytes => "bytecode length"
  | .constants => "constant count"

/-- Why a table has no artifact or bytes are no artifact. Places are numbers of bytes from the
start. -/
inductive ArtifactError where
  | unexpectedEnd (offset : Nat)
  | invalidText (offset : Nat)
  | invalidLength (offset : Nat)
  | negativeCount (field : CountField) (value : Int) (offset : Nat)
  | unknownTag (tag : UInt8) (offset : Nat)
  | unserializable (function : String) (kind : ValueKind)
  | tooLarge (field : CountField) (value : Nat)
  | trailingBytes (count : Nat)
  | duplicateFunction (name : String)
  deriving DecidableEq, Repr

def ArtifactError.message : ArtifactError → String
  | .unexpectedEnd offset => s!"Unexpected EOF while decoding artifact at byte {offset}"
  | .invalidText offset => s!"Invalid UTF-8 string at byte {offset}"
  | .invalidLength offset => s!"Malformed string length prefix at byte {offset}"
  | .negativeCount field value offset => s!"Negative {field.name} ({value}) at byte {offset}"
  | .unknownTag tag offset => s!"Unknown constant tag {tag.toNat} at byte {offset}"
  | .unserializable function kind =>
      s!"Constant of kind '{kind.name}' in '{function}' cannot be serialized"
  | .tooLarge field value => s!"{field.name} {value} does not fit the artifact format"
  | .trailingBytes count => s!"{count} trailing bytes after the last function"
  | .duplicateFunction name => s!"Function '{name}' appears more than once in the artifact"

end DocScript
