/-
Amend.Yaml.Scalar — the text of a scalar as it is written in a document.

A scalar is written between quotes, plainly, or as a block of lines. In each
form line breaks inside it fold: a single break between two lines of text
reads as a space, and of several breaks all but the first are kept. A block
keeps all breaks unless it says that it folds.

  §1 Folding.
  §2 Scalars between quotes.
  §3 Plain scalars.
  §4 Blocks of lines.
-/
import Amend.Value.Json
import Amend.Yaml.Source

namespace Amend.Yaml

/-! ## §1 Folding -/

/-- What a first line break and those after it read as. -/
def folded (first : Char) (more : List Char) : List Char :=
  if first != '\n' then first :: more else if more.isEmpty then [' '] else more

/-- The line breaks from here on with the blanks between them; none if a
document marker begins one of the lines. `fuel` bounds the lines. -/
def emptyLines? (blank : Char → Bool) : (fuel : Nat) → Cursor → Option (List Char × Cursor)
  | 0, _ => none
  | fuel + 1, c =>
    if c.atMarker then none
    else
      let c := c.dropWhile blank
      match c.break? with
      | some (b, c) => (emptyLines? blank fuel c).map fun (bs, c) => (b :: bs, c)
      | none => some ([], c)

/-! ## §2 Scalars between quotes -/

/-- The character of a one-letter escape. -/
def escaped? : Char → Option Char
  | '0' => some '\x00'
  | 'a' => some '\x07'
  | 'b' => some '\x08'
  | 't' => some '\t'
  | '\t' => some '\t'
  | 'n' => some '\n'
  | 'v' => some '\x0b'
  | 'f' => some '\x0c'
  | 'r' => some '\r'
  | 'e' => some '\x1b'
  | ' ' => some ' '
  | '"' => some '"'
  | '\\' => some '\\'
  | '/' => some '/'
  | 'N' => some '\x85'
  | '_' => some '\xa0'
  | 'L' => some '\u2028'
  | 'P' => some '\u2029'
  | _ => none

/-- How many hexadecimal digits follow the letter of an escape. -/
def escapeWidth? : Char → Option Nat
  | 'x' => some 2
  | 'u' => some 4
  | 'U' => some 8
  | _ => none

/-- The number of `width` hexadecimal digits at the start of `cs`. -/
def hexNumber? (width : Nat) (cs : List Char) : Option Nat :=
  if cs.length < width then none
  else (cs.take width).foldlM (fun n c => (Json.hexValue? (.char c)).map (n * 16 + ·)) 0

/-- The symbol of a code number. -/
def symbolOf (code : Nat) : Except Error Symbol :=
  if 0x10FFFF < code then .error (.fault (.noCharacter code)) else .ok (Json.symbolOfCode code)

/-- The escape after a backslash and the place after it; a broken line reads
as the empty lines after it. -/
def takeEscape (c : Cursor) : Except Error (Text × Cursor) :=
  match c.rest with
  | [] => .error .malformed
  | ch :: rest =>
    match escaped? ch, escapeWidth? ch with
    | some e, _ => .ok ([.char e], c.advance)
    | none, some w =>
      match hexNumber? w rest with
      | some n => (symbolOf n).map fun s => ([s], c.skip (w + 1))
      | none => .error .malformed
    | none, none =>
      match c.break? with
      | none => .error .malformed
      | some (_, c) =>
        match emptyLines? isBlank (c.rest.length + 1) c with
        | some (bs, c) => .ok (bs.map .char, c)
        | none => .error .malformed

/-- The rest of a scalar between double quotes or single ones, and the place
after the closing quote. `fuel` bounds its length. -/
def quotedFrom (double : Bool) : (fuel : Nat) → Cursor → Except Error (Text × Cursor)
  | 0, _ => .error .malformed
  | fuel + 1, c =>
    let go (t : Text) (c : Cursor) : Except Error (Text × Cursor) :=
      (quotedFrom double fuel c).map fun (u, c) => (t ++ u, c)
    match c.rest with
    | [] => .error .malformed
    | ch :: rest =>
      if ch == (if double then '"' else '\'') then
        if !double && rest.head? == some '\'' then go [.char '\''] (c.skip 2)
        else .ok ([], c.advance)
      else if double && ch == '\\' then
        match takeEscape c.advance with
        | .ok (t, c) => go t c
        | .error e => .error e
      else if isBlank ch || isBreak ch then
        let (blanks, c) := c.takeWhile isBlank
        match c.break? with
        | none => go (blanks.map .char) c
        | some (b, c) =>
          match emptyLines? isBlank (c.rest.length + 1) c with
          | some (bs, c) => go ((folded b bs).map .char) c
          | none => .error .malformed
      else go [.char ch] c.advance

/-- A scalar between quotes; the cursor stands at the opening one. -/
def takeQuoted (c : Cursor) : Except Error (Text × Cursor) :=
  quotedFrom (c.head? == some '"') (c.rest.length + 1) c.advance

/-! ## §3 Plain scalars -/

/-- The characters that stand for something of their own inside brackets. -/
def flowSigns : List Char := [',', '[', ']', '\x7b', '\x7d']

/-- The characters of a plain scalar up to white space, a colon that ends a
key, or, inside brackets, another sign. -/
def plainRun (inFlow : Bool) : List Char → List Char
  | [] => []
  | ch :: rest =>
    if isBlank ch || isBreak ch then []
    else if ch == ':' && endsWith (' ' :: '\t' :: if inFlow then flowSigns else []) rest then []
    else if inFlow && ('?' :: flowSigns).contains ch then []
    else ch :: plainRun inFlow rest

/-- The white space after a run of a plain scalar. -/
structure Gap where
  /-- What it reads as if the scalar goes on; empty if it cannot. -/
  filling : List Char
  /-- Whether it holds a line break. -/
  broken : Bool
  after : Cursor

/-- The white space here. A document marker at the start of a line ends the
scalar. -/
def takeGap (c : Cursor) : Gap :=
  let (spaces, c) := c.takeWhile (· == ' ')
  match c.break? with
  | none => ⟨spaces, false, c⟩
  | some (b, c) =>
    let (fill, c) := rest (c.rest.length + 1) c
    ⟨(fill.map (folded b)).getD [], true, c⟩
where
  /-- The line breaks after the first one; none if the scalar ends there. -/
  rest : (fuel : Nat) → Cursor → Option (List Char) × Cursor
    | 0, c => (none, c)
    | fuel + 1, c =>
      if c.atMarker then (none, c)
      else
        let c := c.skipSpaces
        match c.break? with
        | some (b, c) => let (bs, c) := rest fuel c; (bs.map (b :: ·), c)
        | none => (some [], c)

/-- A plain scalar read so far. -/
structure Plain where
  text : List Char
  /-- Whether a line break came after the last of its text. -/
  broken : Bool
  after : Cursor

/-- A plain scalar from one of its runs on, which `filling` comes before.
Outside brackets its lines start at the column `indent` at least. `fuel`
bounds the runs. -/
def plainFrom (inFlow : Bool) (indent : Nat) :
    (fuel : Nat) → (filling : List Char) → Plain → Plain
  | 0, _, p => p
  | fuel + 1, filling, p =>
    let c := p.after
    let run := if c.head? == some '#' then [] else plainRun inFlow c.rest
    if run.isEmpty then p
    else
      let gap := takeGap (c.skip run.length)
      let p : Plain := ⟨p.text ++ filling ++ run, gap.broken, gap.after⟩
      if gap.filling.isEmpty || (!inFlow && gap.after.column < indent) then p
      else plainFrom inFlow indent fuel gap.filling p

/-- A plain scalar; the cursor stands at its first character. -/
def takePlain (inFlow : Bool) (indent : Nat) (c : Cursor) : Plain :=
  plainFrom inFlow indent (c.rest.length + 1) [] ⟨[], false, c⟩

/-! ## §4 Blocks of lines -/

/-- What a block does with the line breaks at its end. -/
inductive Chomping where
  | strip
  | clip
  | keep
  deriving DecidableEq, Repr

/-- What the header of a block says: what becomes of the breaks at its end,
and how far it is indented. -/
structure BlockHeader where
  chomping : Chomping
  indent : Option Nat
  deriving Repr

namespace BlockHeader

/-- The chomping of a sign. -/
def chomping? : Option Char → Option Chomping
  | some '+' => some .keep
  | some '-' => some .strip
  | _ => none

/-- The indentation of a digit, not checked to be above zero. -/
def indent? : Option Char → Option Nat
  | some c => if c.isDigit then some (c.toNat - 0x30) else none
  | none => none

/-- The header of a block, which is a sign and a digit in any order, each of
which may be missing, and the place after its line. -/
def take (c : Cursor) : Except Error (BlockHeader × Cursor) :=
  let (header, c) : BlockHeader × Cursor :=
    match chomping? c.head?, indent? c.head? with
    | some k, _ =>
      match indent? c.advance.head? with
      | some i => (⟨k, some i⟩, c.skip 2)
      | none => (⟨k, none⟩, c.advance)
    | none, some i =>
      match chomping? c.advance.head? with
      | some k => (⟨k, some i⟩, c.skip 2)
      | none => (⟨.clip, some i⟩, c.advance)
    | none, none => (⟨.clip, none⟩, c)
  if header.indent = some 0 || !endsWith [' '] c.rest then .error .malformed
  else
    match c.finishLine? with
    | some c => .ok (header, c)
    | none => .error .malformed

end BlockHeader

/-- The line breaks before the first text of a block that does not say how
far it is indented, and the greatest column among its first lines. `fuel`
bounds the characters. -/
def findIndent : (fuel : Nat) → (widest : Nat) → Cursor → List Char × Nat × Cursor
  | 0, widest, c => ([], widest, c)
  | fuel + 1, widest, c =>
    match c.break? with
    | some (b, c) => let (bs, widest, c) := findIndent fuel widest c; (b :: bs, widest, c)
    | none =>
      if c.head? = some ' ' then findIndent fuel (max widest c.advance.column) c.advance
      else ([], widest, c)

/-- The line breaks between lines of a block indented by `indent`. -/
def blockBreaks (indent : Nat) : (fuel : Nat) → Cursor → List Char × Cursor
  | 0, c => ([], c)
  | fuel + 1, c =>
    let c := c.indentTo indent
    match c.break? with
    | some (b, c) => let (bs, c) := blockBreaks indent fuel c; (b :: bs, c)
    | none => ([], c)

/-- What stands between two lines of a block. A folded block keeps breaks
beside a line that starts with a blank. -/
def between (folds : Bool) (first : Option Char) (breaks : List Char) (blankBeside : Bool) :
    List Char :=
  if folds && first == some '\n' && !blankBeside then if breaks.isEmpty then [' '] else []
  else first.toList

/-- The lines of a block from the one here on, which `breaks` come before.
`fuel` bounds the lines. -/
def blockLines (folds : Bool) (chomping : Chomping) (indent : Nat) :
    (fuel : Nat) → (breaks : List Char) → Cursor → List Char × Cursor
  | 0, _, c => ([], c)
  | fuel + 1, breaks, c =>
    let startsBlank (c : Cursor) : Bool := (c.head?.map isBlank).getD true
    let (line, d) := c.takeWhile (!isBreak ·)
    let (first, d) : Option Char × Cursor :=
      match d.break? with
      | some (b, d) => (some b, d)
      | none => (none, d)
    let (more, d) := blockBreaks indent (d.rest.length + 1) d
    if d.column = indent && !d.rest.isEmpty then
      let (lines, e) := blockLines folds chomping indent fuel more d
      (breaks ++ line ++ between folds first more (startsBlank c || startsBlank d) ++ lines, e)
    else
      let ending :=
        match chomping with
        | .strip => []
        | .clip => first.toList
        | .keep => first.toList ++ more
      (breaks ++ line ++ ending, d)

/-- A block of lines inside a collection at column `outer`; the cursor stands
at its sign. -/
def takeBlock (outer : Int) (c : Cursor) : Except Error (Text × Cursor) := do
  let folds := c.head? == some '>'
  let (header, c) ← BlockHeader.take c.advance
  let least := max 1 (outer + 1).toNat
  let fuel := c.rest.length + 1
  let (breaks, indent, c) : List Char × Nat × Cursor :=
    match header.indent with
    | some i =>
      let indent := least + i - 1
      let (bs, c) := blockBreaks indent fuel c
      (bs, indent, c)
    | none =>
      let (bs, widest, c) := findIndent fuel 0 c
      (bs, max least widest, c)
  let (cs, c) :=
    if c.column = indent && !c.rest.isEmpty then
      blockLines folds header.chomping indent fuel breaks c
    else (if header.chomping = .keep then breaks else [], c)
  return (cs.map .char, c)

end Amend.Yaml
