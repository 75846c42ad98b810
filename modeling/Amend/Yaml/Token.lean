/-
Amend.Yaml.Token — the signs and scalars a YAML document is made of.

Indentation is turned into signs here: a block collection begins where its
first entry is indented more than what is around it, and ends where a line
is indented less. A key that has no sign of its own is only known by the
colon after it, so each token that may be a key is kept in mind as a
candidate, and a colon puts the sign of a key in front of it. A candidate
must end on its own line and within 1024 characters.

Tokens are read only as far as they are asked for: a token is given out once
it is known that no sign belongs in front of it. So a document that is wrong
in two places fails at the place that is reached first.

  §1 Tokens.
  §2 The state of the reading.
  §3 Tags, anchors and directives.
  §4 One token.
  §5 Tokens on demand.
-/
import Amend.Yaml.Scalar

namespace Amend.Yaml

/-! ## §1 Tokens -/

/-- A line that says something about the document after it. -/
inductive Directive where
  | version (major : Nat)
  | handle (name : List Char) (meaning : List Char)
  | other
  deriving DecidableEq, Repr

/-- A sign or a scalar. -/
inductive Token where
  | directive (d : Directive)
  | documentStart
  | documentEnd
  | sequenceStart
  | mappingStart
  | blockEnd
  | openBracket
  | closeBracket
  | openBrace
  | closeBrace
  | comma
  | item
  | key
  | value
  | alias (name : List Char)
  | anchor (name : List Char)
  | tag (handle : Option (List Char)) (suffix : List Char)
  | scalar (plain : Bool) (t : Text)
  | finish
  deriving DecidableEq, Repr

/-! ## §2 The state of the reading -/

/-- A token that may turn out to be a key. -/
structure Candidate where
  /-- How many tokens come before it. -/
  place : Nat
  /-- Whether the document is malformed unless it is a key. -/
  required : Bool
  start : Cursor

/-- How far the reading has come. -/
structure Lexer where
  cursor : Cursor
  /-- What is met at the end of the characters, if not the end of the
  document. -/
  cut : Option Error := none
  /-- How many tokens have been given out. -/
  taken : Nat := 0
  /-- The tokens that have not. -/
  waiting : List Token := []
  /-- Whether the end of the document has been read. -/
  finished : Bool := false
  /-- The columns of the open block collections, the innermost first. -/
  columns : List Nat := []
  /-- Whether a key without a sign may begin here. -/
  keyAllowed : Bool := true
  /-- The candidate in the innermost brackets, or outside any. -/
  candidate : Option Candidate := none
  /-- The candidates around each open pair of brackets, the innermost first. -/
  enclosing : List (Option Candidate) := []

namespace Lexer

/-- Whether some brackets are open. -/
def inFlow (l : Lexer) : Bool := !l.enclosing.isEmpty

/-- The column of the innermost block collection. -/
def column (l : Lexer) : Int :=
  match l.columns with
  | [] => -1
  | c :: _ => c

/-- How many tokens have been read. -/
def count (l : Lexer) : Nat := l.taken + l.waiting.length

/-- Adds a token. -/
def push (t : Token) (l : Lexer) : Lexer := { l with waiting := l.waiting ++ [t] }

/-- Adds a token in front of those from the given place on. -/
def insertAt (place : Nat) (t : Token) (l : Lexer) : Lexer :=
  let earlier := place - l.taken
  { l with waiting := l.waiting.take earlier ++ t :: l.waiting.drop earlier }

/-- Moves `n` characters on. -/
def skip (n : Nat) (l : Lexer) : Lexer := { l with cursor := l.cursor.skip n }

/-- Says whether a key may begin next. -/
def allowKey (allowed : Bool) (l : Lexer) : Lexer := { l with keyAllowed := allowed }

/-- Gives up the candidate, which must not be a required one. -/
def dropCandidate (l : Lexer) : Except Error Lexer :=
  match l.candidate with
  | some k => if k.required then .error .malformed else .ok { l with candidate := none }
  | none => .ok l

/-- Keeps the token that begins here in mind as a key, if one may begin. One
at the column of its collection is required to be a key. -/
def markCandidate (l : Lexer) : Except Error Lexer :=
  if l.keyAllowed then do
    let l ← l.dropCandidate
    let k : Candidate := ⟨l.count, !l.inFlow && l.column == l.cursor.column, l.cursor⟩
    return { l with candidate := some k }
  else .ok l

/-- The greatest length of a key. -/
def keyLimit : Nat := 1024

/-- Whether a candidate can no longer be a key here. -/
def isStale (c : Cursor) (k : Candidate) : Bool :=
  k.start.line != c.line || keyLimit < c.index - k.start.index

/-- Gives up the candidates that can no longer be keys. -/
def dropStale (l : Lexer) : Except Error Lexer :=
  let stale (k : Option Candidate) : Bool := (k.map (isStale l.cursor)).getD false
  let required (k : Option Candidate) : Bool := stale k && (k.map Candidate.required).getD false
  let keep (k : Option Candidate) : Option Candidate := if stale k then none else k
  if required l.candidate || l.enclosing.any required then .error .malformed
  else .ok { l with candidate := keep l.candidate, enclosing := l.enclosing.map keep }

/-- Ends the block collections whose column satisfies `p`. -/
def closeBlocks (p : Nat → Bool) (l : Lexer) : Lexer :=
  if l.inFlow then l
  else
    let closed := l.columns.takeWhile p
    { l with columns := l.columns.dropWhile p,
             waiting := l.waiting ++ List.replicate closed.length .blockEnd }

/-- Begins a block collection at a column that is further in than those that
are open; `start` is put in front of the tokens from `place` on. -/
def openBlock (column place : Nat) (start : Token) (l : Lexer) : Lexer :=
  if !l.inFlow && l.column < column then
    { l.insertAt place start with columns := column :: l.columns }
  else l

/-! ## §3 Tags, anchors and directives -/

/-- The bytes of the escapes at the start of some characters, and how many
of those they take. -/
def takeBytes : (fuel : Nat) → List Char → Option (Bytes × Nat)
  | 0, _ => none
  | fuel + 1, cs =>
    match cs with
    | '%' :: r => do
      let n ← hexNumber? 2 r
      let (bs, k) ← takeBytes fuel (r.drop 2)
      return (UInt8.ofNat n :: bs, k + 3)
    | _ => some ([], 0)

/-- The characters of a text that has no surrogates. -/
def chars (t : Text) : List Char :=
  t.filterMap fun
    | .char c => some c
    | .stray _ => none

/-- The characters of a tag from here on. Escapes stand for UTF-8. -/
def tagText : (fuel : Nat) → List Char → Cursor → Except Error (List Char × Cursor)
  | 0, _, _ => .error .malformed
  | fuel + 1, acc, c =>
    let (run, c) := c.takeWhile fun ch => isTagChar ch && ch != '%'
    let acc := acc ++ run
    if c.head? = some '%' then
      match takeBytes (c.rest.length + 1) c.rest with
      | none => .error .malformed
      | some (bs, n) =>
        match Utf8.decodeStrict bs with
        | .ok t => tagText fuel (acc ++ chars t) (c.skip n)
        | .error _ => .error .malformed
    else if acc.isEmpty then .error .malformed
    else .ok (acc, c)

/-- The characters of a tag, of which there must be one. -/
def takeTagText (c : Cursor) : Except Error (List Char × Cursor) :=
  tagText (c.rest.length + 1) [] c

/-- A handle: one exclamation mark, or two around a name. -/
def takeHandle (c : Cursor) : Except Error (List Char × Cursor) :=
  match c.rest with
  | '!' :: ' ' :: _ => .ok (['!'], c.advance)
  | '!' :: _ =>
    let (name, d) := c.advance.takeWhile isNameChar
    if d.head? = some '!' then .ok ('!' :: name ++ ['!'], d.advance) else .error .malformed
  | _ => .error .malformed

/-- A tag whose name begins with a handle. -/
def takeHandled (c : Cursor) : Except Error (Token × Cursor) := do
  let word := (c.rest.drop 1).takeWhile fun ch => !isBreak ch && ch != ' '
  let (handle, c) ← if word.contains '!' then takeHandle c else .ok (['!'], c.advance)
  let (suffix, c) ← takeTagText c
  return (.tag (some handle) suffix, c)

/-- A tag; the cursor stands at its exclamation mark. -/
def takeTag (c : Cursor) : Except Error (Token × Cursor) := do
  let (t, c) ←
    match c.rest with
    | '!' :: '<' :: _ =>
      match takeTagText (c.skip 2) with
      | .ok (suffix, c) =>
        if c.head? = some '>' then .ok (Token.tag none suffix, c.advance) else .error .malformed
      | .error e => .error e
    | _ =>
      if atGap (c.rest.drop 1) then .ok (Token.tag none ['!'], c.advance) else takeHandled c
  if endsWith [' '] c.rest then return (t, c) else throw .malformed

/-- The name of an anchor or an alias; the cursor stands at its sign. -/
def takeName (c : Cursor) : Except Error (List Char × Cursor) :=
  let (name, c) := c.advance.takeWhile isNameChar
  if name.isEmpty || !endsWith " \t?:,]\x7d%@`".toList c.rest then .error .malformed
  else .ok (name, c)

/-- A number, which has a digit at least. -/
def takeNumber (c : Cursor) : Except Error (Nat × Cursor) :=
  let (ds, c) := c.takeWhile Char.isDigit
  if ds.isEmpty then .error .malformed
  else
    match Decimal.readDigits (ds.map .char) with
    | .ok n => .ok (n, c)
    | .error (.tooLong n) => .error (.fault (.tooManyDigits n))
    | .error .malformed => .error .malformed

/-- The version that a directive names, of which the first part counts. -/
def takeVersion (c : Cursor) : Except Error (Directive × Cursor) := do
  let (major, c) ← takeNumber c.skipSpaces
  if c.head? = some '.' then
    let (_, c) ← takeNumber c.advance
    if endsWith [' '] c.rest then
      return (.version major, c)
    else throw .malformed
  else throw .malformed

/-- The handle that a directive declares, and what it stands for. -/
def takeDeclaration (c : Cursor) : Except Error (Directive × Cursor) := do
  let (name, c) ← takeHandle c.skipSpaces
  if c.head? = some ' ' then
    let (meaning, c) ← takeTagText c.skipSpaces
    if endsWith [' '] c.rest then return (.handle name meaning, c) else throw .malformed
  else throw .malformed

/-- A directive; the cursor stands at its sign. -/
def takeDirective (c : Cursor) : Except Error (Directive × Cursor) := do
  let (name, c) := c.advance.takeWhile isNameChar
  if name.isEmpty || !endsWith [' '] c.rest then throw .malformed
  let (d, c) ←
    if name = "YAML".toList then takeVersion c
    else if name = "TAG".toList then takeDeclaration c
    else .ok (.other, c.lineEnd)
  match c.finishLine? with
  | some c => return (d, c)
  | none => throw .malformed

/-! ## §4 One token -/

/-- Spaces, comments and line breaks up to the next token. A line break
outside brackets lets a key begin. `fuel` bounds the lines. -/
def skipGap : (fuel : Nat) → Lexer → Lexer
  | 0, l => l
  | fuel + 1, l =>
    let c := l.cursor.skipSpaces
    let c := if c.head? = some '#' then c.lineEnd else c
    match c.break? with
    | some (_, c) => skipGap fuel { l with cursor := c, keyAllowed := l.keyAllowed || !l.inFlow }
    | none => { l with cursor := c }

/-- Moves to the next token, and gives up and ends what does not reach it. -/
def settle (l : Lexer) : Except Error Lexer := do
  let c := l.cursor
  let c := if c.index = 0 && c.head? = some '\uFEFF' then c.advance else c
  let l := skipGap (c.rest.length + 1) { l with cursor := c }
  let l ← l.dropStale
  return l.closeBlocks (l.cursor.column < ·)

/-- A token that stands between documents. -/
def fetchOutside (t : Token) (c : Cursor) (l : Lexer) : Except Error Lexer := do
  let l ← (l.closeBlocks fun _ => true).dropCandidate
  return { (l.allowKey false).push t with cursor := c }

/-- An opening bracket or brace. -/
def fetchOpening (t : Token) (l : Lexer) : Except Error Lexer := do
  let l ← l.markCandidate
  return ({ l with candidate := none, enclosing := l.candidate :: l.enclosing }.allowKey true
    |>.push t).skip 1

/-- A closing bracket or brace. -/
def fetchClosing (t : Token) (l : Lexer) : Except Error Lexer := do
  let l ← l.dropCandidate
  match l.enclosing with
  | [] => throw .malformed
  | k :: ks => return ({ l with candidate := k, enclosing := ks }.allowKey false |>.push t).skip 1

/-- A comma. -/
def fetchComma (l : Lexer) : Except Error Lexer := do
  let l ← (l.allowKey true).dropCandidate
  return (l.push .comma).skip 1

/-- A sign that stands for an item, a key or a value by itself. Outside
brackets it must be where a key may begin, and may begin a collection. -/
def fetchSign (t start : Token) (allowed : Bool) (l : Lexer) : Except Error Lexer := do
  if !l.inFlow && !l.keyAllowed then throw .malformed
  let l := l.openBlock l.cursor.column l.count start
  let l ← (l.allowKey allowed).dropCandidate
  return (l.push t).skip 1

/-- A colon: the candidate becomes a key, and may begin a mapping. -/
def fetchValue (l : Lexer) : Except Error Lexer :=
  match l.candidate with
  | some k =>
    let l := ({ l with candidate := none }.insertAt k.place .key).openBlock k.start.column k.place
      .mappingStart
    .ok (((l.allowKey false).push .value).skip 1)
  | none => l.fetchSign .value .mappingStart (!l.inFlow)

/-- A token that may be a key, with the place after it. -/
def fetchWord (read : Cursor → Except Error (Token × Cursor)) (l : Lexer) :
    Except Error Lexer := do
  let l ← l.markCandidate
  let (t, c) ← read l.cursor
  return { (l.allowKey false).push t with cursor := c }

/-- A plain scalar. A line break after it lets a key begin. -/
def fetchPlain (l : Lexer) : Except Error Lexer := do
  let l ← l.markCandidate
  let p := takePlain l.inFlow (l.column + 1).toNat l.cursor
  return { (l.allowKey p.broken).push (.scalar true (p.text.map .char)) with cursor := p.after }

/-- A block of lines. -/
def fetchBlock (l : Lexer) : Except Error Lexer := do
  let l ← (l.allowKey true).dropCandidate
  let (t, c) ← takeBlock l.column l.cursor
  return { l.push (.scalar false t) with cursor := c }

/-- The signs that begin no plain scalar. -/
def isSign (c : Char) : Bool := "-?:,[]\x7b\x7d#&*!|>'\"%@`".toList.contains c

/-- Whether a plain scalar begins with these characters. -/
def beginsPlain (inFlow : Bool) : List Char → Bool
  | [] => false
  | c :: rest =>
    if c == '-' || (!inFlow && (c == '?' || c == ':')) then !atGap rest
    else !(isSign c || isBlank c || isBreak c)

/-- The token here; `ch` and `rest` are the characters of the document from
here on. -/
def fetch (ch : Char) (rest : List Char) (l : Lexer) : Except Error Lexer :=
  let c := l.cursor
  let marker := c.column == 0 && c.atMarker
  if ch == '%' && c.column == 0 then do
    let (d, c) ← takeDirective c
    l.fetchOutside (.directive d) c
  else if ch == '-' && marker then l.fetchOutside .documentStart (c.skip 3)
  else if ch == '.' && marker then l.fetchOutside .documentEnd (c.skip 3)
  else if ch == '[' then l.fetchOpening .openBracket
  else if ch == '\x7b' then l.fetchOpening .openBrace
  else if ch == ']' then l.fetchClosing .closeBracket
  else if ch == '\x7d' then l.fetchClosing .closeBrace
  else if ch == ',' then l.fetchComma
  else if ch == '-' && atGap rest then l.fetchSign .item .sequenceStart true
  else if ch == '?' && (l.inFlow || atGap rest) then l.fetchSign .key .mappingStart (!l.inFlow)
  else if ch == ':' && (l.inFlow || atGap rest) then l.fetchValue
  else if ch == '*' then l.fetchWord fun c => (takeName c).map fun (n, c) => (.alias n, c)
  else if ch == '&' then l.fetchWord fun c => (takeName c).map fun (n, c) => (.anchor n, c)
  else if ch == '!' then l.fetchWord takeTag
  else if (ch == '|' || ch == '>') && !l.inFlow then l.fetchBlock
  else if ch == '"' || ch == '\'' then
    l.fetchWord fun c => (takeQuoted c).map fun (t, c) => (.scalar false t, c)
  else if beginsPlain l.inFlow (ch :: rest) then l.fetchPlain
  else .error .malformed

/-! ## §5 Tokens on demand -/

/-- Fails if the characters end before the document does. -/
def uncut (l : Lexer) : Except Error Unit :=
  match l.cut with
  | some e => if l.cursor.rest.isEmpty then .error e else .ok ()
  | none => .ok ()

/-- Reads one more token, or the end of the document. -/
def step (l : Lexer) : Except Error Lexer := do
  let l ← l.settle
  match l.cursor.rest with
  | [] =>
    l.uncut
    let l ← (l.closeBlocks fun _ => true).dropCandidate
    return { l.push .finish with enclosing := [], finished := true }
  | ch :: rest =>
    let l ← l.fetch ch rest
    l.uncut
    return l

/-- Whether the next token may still turn out to be a key. -/
def isUndecided (l : Lexer) : Bool :=
  (l.candidate :: l.enclosing).any fun k => (k.map (·.place == l.taken)).getD false

/-- Reads on until the next token is settled. `fuel` bounds the tokens. -/
def demand : (fuel : Nat) → Lexer → Except Error Lexer
  | 0, _ => .error .malformed
  | fuel + 1, l => do
    if l.finished then return l
    if l.waiting.isEmpty then demand fuel (← l.step)
    else
      let l ← l.dropStale
      if l.isUndecided then demand fuel (← l.step) else return l

/-- The next token. -/
def peek (l : Lexer) : Except Error (Token × Lexer) := do
  let l ← demand (l.cursor.rest.length + 2) l
  match l.waiting with
  | t :: _ => return (t, l)
  | [] => throw .malformed

/-- Gives the next token out. -/
def pass (l : Lexer) : Lexer := { l with taken := l.taken + 1, waiting := l.waiting.drop 1 }

end Lexer

/-- The reading of some characters at its start; `cut` says what is met at
their end, if the document goes on. -/
def Lexer.start (cs : List Char) (cut : Option Error) : Lexer := { cursor := ⟨cs, 0, 0, 0⟩, cut }

end Amend.Yaml
