/-
Amend.Text.Lines — lines and line numbers of a text.

In normalized text a line ends at a line feed alone; `lines` and `unlines`
are inverse there. Three other readings of line breaks occur at the edges
of the program: every Unicode line boundary (`splitLines`, for counting and
showing differences), the breaks of a text stream (`universal`), and the
pieces of such a stream (`streamLines`).
-/
import Amend.Text.Symbol

namespace Amend.Text

/-! ## §1 Lines of normalized text -/

/-- The lines of a text, cut at each line feed. There is always one. -/
def lines : Text → List Text
  | [] => [[]]
  | c :: t =>
    if c = lf then [] :: lines t
    else
      match lines t with
      | l :: ls => (c :: l) :: ls
      | [] => [[c]]

/-- The lines joined by line feeds. -/
def unlines (ls : List Text) : Text := join [lf] ls

/-- How many symbols the lines hold with a line feed after each. -/
def closedLength : List Text → Nat
  | [] => 0
  | l :: ls => l.length + 1 + closedLength ls

/-- How many line feeds the text holds. -/
def breaks (t : Text) : Nat := t.count lf

theorem lines_ne_nil (t : Text) : lines t ≠ [] := by
  cases t with
  | nil => simp [lines]
  | cons c t =>
    unfold lines
    split
    · simp
    · split <;> simp

/-- Cutting at line feeds and joining with them gives the text back. -/
theorem unlines_lines (t : Text) : unlines (lines t) = t := by
  induction t with
  | nil => rfl
  | cons c t ih =>
    have hne := lines_ne_nil t
    unfold lines
    split
    · rename_i h
      subst h
      cases hl : lines t with
      | nil => exact absurd hl hne
      | cons l ls =>
        rw [hl] at ih
        simp only [unlines, join, List.intercalate] at ih ⊢
        simp [List.intersperse] at ih ⊢
        exact ih
    · split
      · rename_i l ls hl
        rw [hl] at ih
        cases ls with
        | nil => simpa [unlines, join, List.intercalate, List.intersperse] using ih
        | cons m ms =>
          simp only [unlines, join, List.intercalate] at ih ⊢
          simp [List.intersperse] at ih ⊢
          exact ih
      · rename_i hl
        exact absurd hl hne

/-- A text has one line more than it has line feeds. -/
theorem length_lines (t : Text) : (lines t).length = breaks t + 1 := by
  unfold breaks
  induction t with
  | nil => rfl
  | cons c t ih =>
    rw [lines]
    split
    · rename_i h
      subst h
      simp [ih]
    · rename_i h
      rw [List.count_cons_of_ne h]
      split
      · rename_i l ls hl
        rw [hl] at ih
        exact ih
      · rename_i hl
        exact absurd hl (lines_ne_nil t)

/-! ## §2 Parts counted from either end -/

/-- The place an index stands for in a sequence of `n`: counted from the
back below zero, and never outside the sequence. -/
def place (n : Nat) (i : Int) : Nat :=
  if i < 0 then (n + i).toNat else min n i.toNat

/-- The part of a list between two indices, either of which may count from
the back. -/
def part {α : Type} (xs : List α) (start stop : Int) : List α :=
  let a := place xs.length start
  let b := place xs.length stop
  (xs.drop a).take (b - a)

/-- The line, counted from one, that holds the symbol at `offset`. -/
def lineAt (content : Text) (offset : Nat) : Nat := breaks (content.take offset) + 1

/-- The line that holds the symbol at an offset of either sign. -/
def lineOf (content : Text) (offset : Int) : Nat := lineAt content (place content.length offset)

/-! ## §3 Other line breaks -/

/-- The characters that end a line anywhere in Unicode text. -/
def isBoundary : Symbol → Bool
  | .char c =>
    let n := c.toNat
    (0x0A ≤ n && n ≤ 0x0D) || (0x1C ≤ n && n ≤ 0x1E) || n == 0x85 || n == 0x2028 || n == 0x2029
  | .stray _ => false

/-- The lines of a text cut after every boundary, each with its boundary.
A carriage return and the line feed after it are one boundary. The last
line is there only if it holds something. -/
def splitLines : Text → List Text
  | [] => []
  | c :: t =>
    let glued := c = cr && t.head? = some lf
    if isBoundary c && !glued then [c] :: splitLines t
    else
      match splitLines t with
      | l :: ls => (c :: l) :: ls
      | [] => [[c]]

/-- A line without the boundary at its end. -/
def chomp (line : Text) : Text :=
  match line.reverse with
  | a :: b :: r => if a = lf ∧ b = cr then r.reverse else if isBoundary a then (b :: r).reverse else line
  | [a] => if isBoundary a then [] else line
  | [] => []

/-- The lines without their boundaries. -/
def bareLines (t : Text) : List Text := (splitLines t).map chomp

/-- A text as a text stream reads it: a carriage return, alone or with a
line feed after it, reads as one line feed. -/
def universal : Text → Text
  | [] => []
  | c :: t =>
    if c = cr then
      if t.head? = some lf then universal t else lf :: universal t
    else c :: universal t

/-- The lines of a text stream, without their ends. The last line is there
only if it holds something. -/
def streamLines (t : Text) : List Text :=
  let ls := lines (universal t)
  if ls.getLast? = some [] then ls.dropLast else ls

end Amend.Text
