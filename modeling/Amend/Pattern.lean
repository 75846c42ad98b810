/-
Amend.Pattern — search texts with their white space relaxed.

A pattern is a sequence of pieces, each of which takes as many symbols as
it can and then hands over to the next. No piece needs to give symbols
back: a piece that takes white space is followed by a word, which starts
with none, or by nothing. Two relaxations of a search text are built:
`tolerant` keeps the kind of each run of white space and the number of line
breaks at the edges, `tokens` keeps only the words and their order.

  §1 Pieces and patterns, and what they match.
  §2 Building patterns from a search text.
  §3 The pattern as a regular expression.
-/
import Amend.Text.Blank
import Amend.Text.Search

namespace Amend

/-! ## §1 Pieces -/

/-- One piece of a pattern. -/
inductive Piece where
  /-- These symbols and no others. -/
  | word (w : Text)
  /-- One or more tabs and spaces. -/
  | blanks
  /-- Any number of tabs and spaces. -/
  | indent
  /-- Exactly `n` line feeds, each after any number of tabs and spaces. -/
  | breaks (n : Nat)
  /-- One or more symbols of white space. -/
  | gap
  deriving DecidableEq, Repr

/-- What a search text is relaxed to; a text without words matches nothing. -/
inductive Pattern where
  | never
  | pieces (ps : List Piece)
  deriving DecidableEq, Repr

namespace Piece

/-- How many tabs and spaces a text starts with. -/
def blankCount (t : Text) : Nat := (t.takeWhile Symbol.isBlank).length

/-- How many symbols `n` line breaks with blanks before them take. -/
def takeBreaks : (n : Nat) → Matcher
  | 0, _ => some 0
  | n + 1, t =>
    let k := blankCount t
    match t.drop k with
    | c :: r => if c = lf then (takeBreaks n r).map (k + 1 + ·) else none
    | [] => none

/-- How many symbols a piece takes at the start of a text. -/
def take : Piece → Matcher
  | word w, t => if w.isPrefixOf t then some w.length else none
  | blanks, t => let k := blankCount t; if k = 0 then none else some k
  | indent, t => some (blankCount t)
  | breaks n, t => takeBreaks n t
  | gap, t => let k := (t.takeWhile Symbol.isSpace).length; if k = 0 then none else some k

/-- How many symbols the pieces take one after the other. -/
def takeAll : List Piece → Matcher
  | [], _ => some 0
  | p :: ps, t =>
    match p.take t with
    | none => none
    | some k => (takeAll ps (t.drop k)).map (k + ·)

end Piece

namespace Pattern

/-- The matcher of a pattern. -/
def matcher : Pattern → Matcher
  | never => fun _ => none
  | pieces ps => Piece.takeAll ps

/-! ## §2 Relaxing a search text -/

/-- The pieces of a run of white space that holds a line feed and is the
last of the search text. The indentation of a line that the search text
only begins is matched too. -/
def trailing (run : Text) : List Piece :=
  .breaks (run.count lf) :: if run.getLast? = some lf then [] else [.indent]

/-- The pieces of the runs of a search text; `first` says whether the first
of them starts it. -/
def relax : (first : Bool) → List Text.Run → List Piece
  | _, [] => []
  | first, r :: rs =>
    (if !r.blank then [.word r.text]
     else if lf ∉ r.text then [.blanks]
     else if first then [.breaks (r.text.count lf), .indent]
     else if rs.isEmpty then trailing r.text
     else [.gap]) ++ relax false rs

/-- A search text whose runs of white space may differ from those it
matches. A run within a line stays within its line; a run with a line break
between words may be any white space; a run with line breaks at an edge
keeps their number. -/
def tolerant (search : Text) : Pattern :=
  let rs := Text.runs search
  if rs.all (·.blank) then never else pieces (relax true rs)

/-- The words of a search text with any white space between them. -/
def tokens (search : Text) : Pattern :=
  match Text.words search with
  | [] => never
  | ws => pieces ((ws.map Piece.word).intersperse .gap)

/-! ## §3 Regular expressions -/

/-- The characters a regular expression gives a meaning to. -/
def special : List Char :=
  "()[]\x7b\x7d?*+-|^$\\.&~# \t\n\r\x0b\x0c".toList

/-- A text with every special character escaped. -/
def escape (t : Text) : Text :=
  t.flatMap fun
    | .char c => if c ∈ special then [.char '\\', .char c] else [.char c]
    | s => [s]

/-- A piece as a regular expression. -/
def pieceSource : Piece → Text
  | .word w => escape w
  | .blanks => "[\\t ]+"
  | .indent => "[\\t ]*"
  | .breaks n => "(?:[\\t ]*\\n)\x7b" ++ Text.ofNat n ++ "\x7d"
  | .gap => "\\s+"

/-- The pattern as a regular expression. -/
def source : Pattern → Text
  | never => "(?!)"
  | pieces ps => ps.flatMap pieceSource

end Pattern

end Amend
