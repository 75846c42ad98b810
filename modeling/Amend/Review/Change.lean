/-
Amend.Review.Change — changes that wait for approval, and how they are
shown.

A change is a file's text before and after; a new file has no text before.
Its difference is shown in unified form, in colour on a terminal and with
markup on a screen, and summed up by the number of lines added and removed.

  §1 Changes.
  §2 Differences and counts.
  §3 Styles.
-/
import Amend.Difference.Unified
import Amend.Table
import Amend.Text.Search

namespace Amend

/-! ## §1 Changes -/

/-- A file's text before, if it has one, and after. -/
structure Change where
  path : Text
  old : Option Text
  new : Text
  deriving DecidableEq, Repr

namespace Change

/-- Whether the file is new. -/
def isNew (c : Change) : Bool := c.old.isNone

/-- Whether the change alters anything. -/
def alters (c : Change) : Bool := c.old != some c.new

/-- The changes that alter something, by path; of several for one path the
last counts. -/
def staged (changes : List Change) : List Change :=
  let latest : Table Text Change := Table.ofList (changes.map fun c => (c.path, c))
  ((latest.map Prod.snd).filter alters).mergeSort fun a b => Text.le a.path b.path

/-! ## §2 Differences and counts -/

/-- The difference in unified form; empty for a new file and for a text that
did not change. -/
def difference (c : Change) : Text :=
  match c.old with
  | none => []
  | some old =>
    if old = c.new then []
    else Difference.unified ("a/" ++ c.path) ("b/" ++ c.path) old c.new

/-- What a line of a difference is. -/
inductive LineKind where
  | header
  | hunk
  | added
  | removed
  | plain
  deriving DecidableEq, Repr

/-- The kind of a line, by how it starts. -/
def lineKind (line : Text) : LineKind :=
  let starts (s : String) : Bool := (Text.ofString s).isPrefixOf line
  if starts "+++" || starts "---" then .header
  else if starts "@@" then .hunk
  else if starts "+" then .added
  else if starts "-" then .removed
  else .plain

/-- How many lines are added and removed: for a new file its lines, else the
lines of the difference so marked. -/
def lineCounts (c : Change) : Nat × Nat :=
  match c.old with
  | none => ((Text.splitLines c.new).length, 0)
  | some _ =>
    let kinds := (Text.bareLines c.difference).map lineKind
    (kinds.count .added, kinds.count .removed)

/-- The change in one line. -/
def summary (c : Change) : Text :=
  let (added, removed) := c.lineCounts
  let tag : Text := if c.isNew then " (new file)" else ""
  c.path ++ tag ++ "  +" ++ Text.ofNat added ++ " -" ++ Text.ofNat removed

/-! ## §3 Styles -/

/-- What is put before and after a line of a kind. -/
abbrev Style := LineKind → String × String

/-- Colours of a terminal. -/
def terminalStyle : Style
  | .header => ("\x1b[1m", "\x1b[0m")
  | .hunk => ("\x1b[36m", "\x1b[0m")
  | .added => ("\x1b[32m", "\x1b[0m")
  | .removed => ("\x1b[31m", "\x1b[0m")
  | .plain => ("", "")

/-- Markup of a screen. -/
def screenStyle : Style
  | .header => ("[bold]", "[/bold]")
  | .hunk => ("[cyan]", "[/cyan]")
  | .added => ("[green]", "[/green]")
  | .removed => ("[red]", "[/red]")
  | .plain => ("", "")

/-- The lines of a difference in a style, each made safe for it first. -/
def styled (style : Style) (escape : Text → Text) (difference : Text) : Text :=
  Text.unlines ((Text.bareLines difference).map fun line =>
    let (before, after) := style (lineKind line)
    Text.ofString before ++ escape line ++ Text.ofString after)

/-- A difference in the colours of a terminal. -/
def colored (difference : Text) : Text := styled terminalStyle id difference

/-- A text in which no bracket is read as markup. -/
def escapeMarkup (t : Text) : Text := Text.replace t "[" "\\["

/-- A difference in the markup of a screen. -/
def marked (difference : Text) : Text := styled screenStyle escapeMarkup difference

/-- The differences of the changes that have one. -/
def differences (changes : List Change) : List Text :=
  (changes.map difference).filter (· ≠ [])

/-- The changes as they are printed. -/
def printed (changes : List Change) : Text :=
  changes.flatMap fun c =>
    ("\n=== " : Text) ++ c.summary ++ "\n" ++
      (if c.difference = [] then [] else colored c.difference ++ [lf])

end Change

end Amend
