/-
Amend.Text.Utf8 — bytes and texts.

Bytes are cut into well-formed sequences and, between them, the longest
beginnings of sequences that go wrong. Three readings differ only in what
they do with the latter: `decode` keeps each byte as a stray symbol,
`decodeLossy` puts one replacement character in its place, and
`decodeStrict` refuses. `tryEncode` writes a text back and refuses one that
holds a surrogate which stands for no byte.

  §1 Writing.
  §2 Cutting bytes into sequences.
  §3 The three readings.
-/
import Amend.Text.Symbol

namespace Amend

/-- The content of a file. -/
abbrev Bytes := List UInt8

namespace Utf8

/-! ## §1 Writing -/

/-- The bytes of a character, by its code point. -/
def encodeChar (c : Char) : Bytes :=
  let n := c.toNat
  if n < 0x80 then [.ofNat n]
  else if n < 0x800 then [.ofNat (0xC0 + n / 0x40), .ofNat (0x80 + n % 0x40)]
  else if n < 0x10000 then
    [.ofNat (0xE0 + n / 0x1000), .ofNat (0x80 + n / 0x40 % 0x40), .ofNat (0x80 + n % 0x40)]
  else
    [.ofNat (0xF0 + n / 0x40000), .ofNat (0x80 + n / 0x1000 % 0x40),
     .ofNat (0x80 + n / 0x40 % 0x40), .ofNat (0x80 + n % 0x40)]

/-- The bytes of a symbol; a stray byte stands for itself. A lone surrogate
has no bytes in UTF-8 and is given those that its number would have. -/
def encodeSymbol : Symbol → Bytes
  | .char c => encodeChar c
  | .stray s =>
    if (Symbol.stray s).isLone then
      [0xED, .ofNat (0xA0 + s.val / 0x40), .ofNat (0x80 + s.val % 0x40)]
    else [.ofNat (s.val - 0x400)]

/-- The bytes of a text that has no lone surrogate. -/
def encode (t : Text) : Bytes := t.flatMap encodeSymbol

/-- A text that cannot be written: where it goes wrong, the number of the lone
surrogate there, and how many surrogates stand together from it on. -/
structure Unencodable where
  position : Nat
  code : Nat
  count : Nat
  deriving DecidableEq, Repr

/-- What keeps a text that starts at the offset `pos` from being written: its
first lone surrogate. -/
def unencodableFrom : (pos : Nat) → Text → Option Unencodable
  | _, [] => none
  | pos, s :: t =>
    if s.isLone then some ⟨pos, s.code, (t.takeWhile Symbol.isSurrogate).length + 1⟩
    else unencodableFrom (pos + 1) t

/-- What keeps a text from being written. -/
def unencodable? (t : Text) : Option Unencodable := unencodableFrom 0 t

/-- The bytes of a text, or why it cannot be written. -/
def tryEncode (t : Text) : Except Unencodable Bytes :=
  match unencodable? t with
  | none => .ok (encode t)
  | some u => .error u

/-! ## §2 Cutting bytes into sequences -/

/-- Why a sequence is not well-formed. -/
inductive Defect where
  | start
  | continuation
  | truncated
  deriving DecidableEq, Repr

/-- A well-formed sequence, or the beginning of one that goes wrong. -/
inductive Piece where
  | char (c : Char)
  | bad (bytes : Bytes) (defect : Defect)
  deriving Repr

/-- A byte that continues a sequence. -/
def isContinuation (b : UInt8) : Bool := 0x80 ≤ b && b < 0xC0

/-- A byte that may come second after `lead`: it excludes overlong forms,
surrogates and numbers beyond Unicode. -/
def isSecond (lead b : UInt8) : Bool :=
  isContinuation b &&
    (if lead = 0xE0 then 0xA0 ≤ b
     else if lead = 0xED then b < 0xA0
     else if lead = 0xF0 then 0x90 ≤ b
     else if lead = 0xF4 then b < 0x90
     else true)

/-- The low six bits of a continuation byte. -/
def payload (b : UInt8) : Nat := b.toNat % 0x40

/-- The piece that starts with the byte `b`, and how many of the bytes after
it belong to the piece. -/
def next (b : UInt8) (rest : Bytes) : Piece × Nat :=
  if b < 0x80 then (.char (Char.ofNat b.toNat), 0)
  else if b < 0xC2 then (.bad [b] .start, 0)
  else if b < 0xE0 then
    match rest with
    | [] => (.bad [b] .truncated, 0)
    | c :: _ =>
      if isSecond b c then (.char (Char.ofNat ((b.toNat - 0xC0) * 0x40 + payload c)), 1)
      else (.bad [b] .continuation, 0)
  else if b < 0xF0 then
    match rest with
    | [] => (.bad [b] .truncated, 0)
    | c :: rest =>
      if !isSecond b c then (.bad [b] .continuation, 0)
      else
        match rest with
        | [] => (.bad [b, c] .truncated, 1)
        | d :: _ =>
          if isContinuation d then
            (.char (Char.ofNat ((b.toNat - 0xE0) * 0x1000 + payload c * 0x40 + payload d)), 2)
          else (.bad [b, c] .continuation, 1)
  else if b < 0xF5 then
    match rest with
    | [] => (.bad [b] .truncated, 0)
    | c :: rest =>
      if !isSecond b c then (.bad [b] .continuation, 0)
      else
        match rest with
        | [] => (.bad [b, c] .truncated, 1)
        | d :: rest =>
          if !isContinuation d then (.bad [b, c] .continuation, 1)
          else
            match rest with
            | [] => (.bad [b, c, d] .truncated, 2)
            | e :: _ =>
              if isContinuation e then
                (.char (Char.ofNat ((b.toNat - 0xF0) * 0x40000 + payload c * 0x1000
                  + payload d * 0x40 + payload e)), 3)
              else (.bad [b, c, d] .continuation, 2)
  else (.bad [b] .start, 0)

/-- The pieces of the bytes that are left when `skip` of them belong to the
piece before. -/
def piecesFrom : (skip : Nat) → Bytes → List Piece
  | _, [] => []
  | skip + 1, _ :: rest => piecesFrom skip rest
  | 0, b :: rest =>
    let (piece, more) := next b rest
    piece :: piecesFrom more rest

/-- The pieces of a byte sequence, in order. -/
def pieces (bytes : Bytes) : List Piece := piecesFrom 0 bytes

/-! ## §3 The three readings -/

/-- Every byte that is part of no character becomes a stray symbol. -/
def decode (bytes : Bytes) : Text :=
  (pieces bytes).flatMap fun
    | .char c => [.char c]
    | .bad bs _ => bs.map Symbol.ofByte

/-- Every piece that is no character becomes one replacement character. -/
def decodeLossy (bytes : Bytes) : Text :=
  (pieces bytes).map fun
    | .char c => .char c
    | .bad _ _ => .char '\uFFFD'

/-- Bytes that are not UTF-8: where they go wrong, and how. -/
structure Malformed where
  position : Nat
  bytes : Bytes
  defect : Defect
  deriving DecidableEq, Repr

/-- Reads pieces that start at the byte offset `pos`; the first one that is
no character is reported. -/
def readPieces : (pos : Nat) → List Piece → Except Malformed Text
  | _, [] => .ok []
  | pos, .char c :: ps => (readPieces (pos + (encodeChar c).length) ps).map (.char c :: ·)
  | pos, .bad bs d :: _ => .error ⟨pos, bs, d⟩

/-- Reads bytes that must be UTF-8. -/
def decodeStrict (bytes : Bytes) : Except Malformed Text := readPieces 0 (pieces bytes)

end Utf8

end Amend
