import DocScript.Text.Lines

/-!
# Transcripts
-/

namespace DocScript

/-- What a program has printed, text by text. -/
structure Transcript where
  texts : Array String := #[]
  deriving DecidableEq, Inhabited, Repr

namespace Transcript

def print (transcript : Transcript) (text : String) : Transcript := ⟨transcript.texts.push text⟩

/-- The texts from one on, each on a line of its own. -/
def textFrom (transcript : Transcript) (start : Nat) : String :=
  String.join ((transcript.texts.toList.drop start).map (· ++ "\n"))

/-- All that was printed. -/
def text (transcript : Transcript) : String := transcript.textFrom 0

/-- The lines of all that was printed; a text may hold several. -/
def lines (transcript : Transcript) : List String := Text.lines transcript.text

end Transcript

end DocScript
