/-
Amend.Text.Stream — reading a file as text, piece by piece.

A stream is decoded in pieces as it is read. A sequence cut off by the end of
a piece is held back for the next piece, and so is a carriage return, since a
line feed may follow it; all line breaks read as line feeds. That bytes are
not UTF-8 is found when the piece that shows it is read, and the place of a
defect counts from the bytes that were held back before that piece.

  §1 Pieces.
  §2 Whole streams.
  §3 Characters some at a time.
-/
import Amend.Text.Lines
import Amend.Text.Utf8

namespace Amend

/-! ## §1 Pieces -/

/-- A file that is being read: the bytes not read yet, and what was held back
of those that were. -/
structure Stream where
  rest : Bytes
  held : Bytes := []
  /-- Whether the last character was a carriage return. -/
  heldReturn : Bool := false
  deriving Repr

namespace Stream

/-- The least number of bytes in a piece. -/
def pieceSize : Nat := 8192

/-- The characters of a piece with the line breaks it shows, and whether a
carriage return is held back. -/
def breakLines (heldReturn atEnd : Bool) (t : Text) : Text × Bool :=
  let t := if heldReturn then cr :: t else t
  if !atEnd && t.getLast? == some cr then (Text.universal t.dropLast, true)
  else (Text.universal t, false)

/-- Reads a piece. A piece without bytes is the end of the stream, where no
sequence may be cut off. -/
def next (size : Nat) (s : Stream) : Except Utf8.Malformed (Text × Stream) :=
  let piece := s.rest.take size
  let data := s.held ++ piece
  let go (t : Text) (held : Bytes) : Text × Stream :=
    let (t, heldReturn) := breakLines s.heldReturn piece.isEmpty t
    (t, ⟨s.rest.drop size, held, heldReturn⟩)
  match Utf8.decodeStrict data with
  | .ok t => .ok (go t [])
  | .error m =>
    if m.defect = .truncated && !piece.isEmpty then
      .ok (go (Utf8.decode (data.take m.position)) (data.drop m.position))
    else .error m

/-! ## §2 Whole streams -/

/-- The text of a stream up to the piece that shows a defect, if there is
one, and the defect. `fuel` bounds the pieces. -/
def readFrom : (fuel : Nat) → Stream → Text × Option Utf8.Malformed
  | 0, _ => ([], none)
  | fuel + 1, s =>
    match s.next pieceSize with
    | .error m => ([], some m)
    | .ok (t, r) =>
      if s.rest.isEmpty then (t, none)
      else
        let (u, defect) := readFrom fuel r
        (t ++ u, defect)

/-- The text of a file that is read as a stream, up to the piece that shows a
defect, if there is one, and the defect. -/
def read (bytes : Bytes) : Text × Option Utf8.Malformed :=
  readFrom (bytes.length / pieceSize + 2) ⟨bytes, [], false⟩

end Stream

/-! ## §3 Characters some at a time -/

/-- A stream of which characters are taken some at a time: those that are
decoded and not taken, and the sizes of the last piece in bytes and in
characters. How many bytes are read next is judged by these. -/
structure Supply where
  stream : Stream
  decoded : Text := []
  bytes : Nat := 0
  chars : Nat := 0

namespace Supply

/-- Takes characters, fewer only at the end of the stream. `fuel` bounds the
pieces. -/
def take (n : Nat) : (fuel : Nat) → Supply → Except Utf8.Malformed (Text × Supply)
  | 0, s => .ok (s.decoded, { s with decoded := [] })
  | fuel + 1, s =>
    let missing := n - s.decoded.length
    if missing = 0 then .ok (s.decoded.take n, { s with decoded := s.decoded.drop n })
    else
      let size := max Stream.pieceSize (s.bytes * missing / s.chars)
      match s.stream.next size with
      | .error m => .error m
      | .ok (t, r) =>
        let bytes := (s.stream.rest.take size).length
        let s : Supply := ⟨r, s.decoded ++ t, bytes, t.length⟩
        if bytes = 0 && t.isEmpty then .ok (s.decoded, { s with decoded := [] })
        else take n fuel s

/-- The characters of a stream `n` at a time, up to the first that are not to
be had, and the defect then shown. `fuel` bounds how often they are taken. -/
def readFrom (n : Nat) : (fuel : Nat) → Supply → List Text × Option Utf8.Malformed
  | 0, _ => ([], none)
  | fuel + 1, s =>
    match s.take n (s.stream.rest.length + 2) with
    | .error m => ([], some m)
    | .ok (t, s) =>
      if t.isEmpty then ([], none)
      else
        let (ts, defect) := readFrom n fuel s
        (t :: ts, defect)

/-- The characters of a file `n` at a time, up to the first that are not to
be had, and the defect then shown. -/
def read (n : Nat) (bytes : Bytes) : List Text × Option Utf8.Malformed :=
  readFrom n (bytes.length + 2) { stream := ⟨bytes, [], false⟩ }

end Supply

end Amend
