/-
Amend.LineEnding — the two line endings a file may use.

Every offset in the program refers to text whose lines end in a line feed.
A file is brought to that form by `normalize` and back by `restore` with
the ending that `detect` found. A carriage return that no line feed follows
is an ordinary symbol throughout.
-/
import Amend.Text.Symbol

namespace Amend

/-- How the lines of a file end. -/
inductive LineEnding where
  | lf
  | crlf
  deriving DecidableEq, Repr

namespace LineEnding

/-- The symbols of the ending. -/
def text : LineEnding → Text
  | lf => [Amend.lf]
  | crlf => [Amend.cr, Amend.lf]

/-- Whether a carriage return with a line feed after it stands anywhere. -/
def hasPair : Text → Bool
  | [] => false
  | c :: t => (c = Amend.cr && t.head? = some Amend.lf) || hasPair t

/-- The ending of a text: `crlf` as soon as one pair occurs. -/
def detect (raw : Text) : LineEnding := if hasPair raw then crlf else lf

/-- The text with each pair collapsed to a line feed. -/
def normalize : Text → Text
  | [] => []
  | c :: t =>
    if c = Amend.cr ∧ t.head? = some Amend.lf then normalize t
    else c :: normalize t

/-- The text with each line feed written as `ending`. -/
def expand (ending : Text) (content : Text) : Text :=
  content.flatMap fun c => if c = Amend.lf then ending else [c]

/-- The normalized text with its lines ending as `e` says. -/
def restore (content : Text) (e : LineEnding) : Text := expand e.text content

/-- Line feeds written as line feeds leave the text alone. -/
theorem restore_lf (content : Text) : restore content lf = content := by
  induction content with
  | nil => rfl
  | cons c t ih =>
    simp only [restore, expand, text, List.flatMap_cons] at ih ⊢
    rw [ih]
    split
    · rename_i h
      simp [h]
    · rfl

end LineEnding

end Amend
