/-
Amend.Yaml.Source — the characters of a YAML document and places in it.

A document is a list of printable characters. A cursor is a place in it: the
characters that are left and where the first of them stands. Two of the five
line breaks, the line and paragraph separators, are kept in folded text; the
others all read as a line feed.

  §1 Errors and kinds of character.
  §2 Cursors.
  §3 Line breaks and document markers.
-/
import Amend.Fault

namespace Amend.Yaml

/-! ## §1 Errors and kinds of character -/

/-- Why a document has no value: it is not well formed, or something in it
stands for a value that does not exist. -/
inductive Error where
  | malformed
  | fault (f : Fault)
  deriving DecidableEq, Repr

/-- Whether a document may hold the character. -/
def isPrintable (c : Char) : Bool :=
  let n := c.toNat
  c == '\t' || c == '\n' || c == '\r' || (0x20 ≤ n && n ≤ 0x7E) || n == 0x85 ||
    (0xA0 ≤ n && n ≤ 0xD7FF) || (0xE000 ≤ n && n ≤ 0xFFFD) || 0x10000 ≤ n

/-- The characters of a text, if a document may hold all of them. -/
def printable? : Text → Option (List Char)
  | [] => some []
  | .char c :: t => if isPrintable c then (printable? t).map (c :: ·) else none
  | .stray _ :: _ => none

/-- Whether the character breaks lines. -/
def isBreak (c : Char) : Bool :=
  c == '\n' || c == '\r' || c == '\x85' || c == '\u2028' || c == '\u2029'

/-- Whether the character is a space or a tab. -/
def isBlank (c : Char) : Bool := c == ' ' || c == '\t'

/-- Whether the character may stand in the name of an anchor or a handle. -/
def isNameChar (c : Char) : Bool := c.isAlphanum || c == '-' || c == '_'

/-- Whether the character may stand in a tag. -/
def isTagChar (c : Char) : Bool := c.isAlphanum || "-;/?:@&=+$,_.!~*'()[]%".toList.contains c

/-- Whether the characters end or go on with a line break or one of `more`. -/
def endsWith (more : List Char) : List Char → Bool
  | [] => true
  | c :: _ => isBreak c || more.contains c

/-- Whether the characters end or go on with white space. -/
def atGap (cs : List Char) : Bool := endsWith [' ', '\t'] cs

/-! ## §2 Cursors -/

/-- A place in a document: what is left of it, how many characters came
before, and the line and column. -/
structure Cursor where
  rest : List Char
  index : Nat := 0
  line : Nat := 0
  column : Nat := 0
  deriving Repr

namespace Cursor

/-- The first character left. -/
def head? (c : Cursor) : Option Char := c.rest.head?

/-- The place one character further. A byte order mark has no width. -/
def advance (c : Cursor) : Cursor :=
  match c.rest with
  | [] => c
  | ch :: rest =>
    if isBreak ch && !(ch == '\r' && rest.head? == some '\n') then
      ⟨rest, c.index + 1, c.line + 1, 0⟩
    else if ch == '\uFEFF' then ⟨rest, c.index + 1, c.line, c.column⟩
    else ⟨rest, c.index + 1, c.line, c.column + 1⟩

/-- The place `n` characters further. -/
def skip (c : Cursor) : Nat → Cursor
  | 0 => c
  | n + 1 => c.advance.skip n

/-- The characters up to the first that does not satisfy `p`, and the place
of that one. -/
def takeWhile (c : Cursor) (p : Char → Bool) : List Char × Cursor :=
  let cs := c.rest.takeWhile p
  (cs, c.skip cs.length)

/-- The place of the first character that does not satisfy `p`. -/
def dropWhile (c : Cursor) (p : Char → Bool) : Cursor := (c.takeWhile p).2

/-- The place after spaces. -/
def skipSpaces (c : Cursor) : Cursor := c.dropWhile (· == ' ')

/-- The place after spaces, as long as the column is less than `limit`. -/
def indentTo (c : Cursor) (limit : Nat) : Cursor :=
  c.skip (min (limit - c.column) (c.rest.takeWhile (· == ' ')).length)

/-- The end of the line. -/
def lineEnd (c : Cursor) : Cursor := c.dropWhile (!isBreak ·)

/-! ## §3 Line breaks and document markers -/

/-- A line break as folded text keeps it, and the place after it. -/
def break? (c : Cursor) : Option (Char × Cursor) :=
  match c.rest with
  | '\r' :: '\n' :: _ => some ('\n', c.skip 2)
  | ch :: _ =>
    if !isBreak ch then none
    else if ch == '\u2028' || ch == '\u2029' then some (ch, c.advance)
    else some ('\n', c.advance)
  | [] => none

/-- Whether three dashes or three dots stand here on their own. -/
def atMarker (c : Cursor) : Bool :=
  match c.rest with
  | '-' :: '-' :: '-' :: r => atGap r
  | '.' :: '.' :: '.' :: r => atGap r
  | _ => false

/-- The place after the rest of a line that holds spaces and a comment at
most; none if it holds something else. -/
def finishLine? (c : Cursor) : Option Cursor :=
  let c := c.skipSpaces
  let c := if c.head? = some '#' then c.lineEnd else c
  match c.head? with
  | none => some c
  | some _ => c.break?.map Prod.snd

end Cursor

end Amend.Yaml
