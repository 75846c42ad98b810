/-
Amend.Text.Symbol — the alphabet of edited text.

A text is a list of symbols, and a symbol is a Unicode character or a
surrogate. A file is edited as text even when its bytes are not all valid
UTF-8: 128 of the surrogates stand for the bytes that no character accounts
for. The others stand for nothing; they come into a text where half of an
escaped pair is read, and no file can hold them. Offsets, lengths and columns
count symbols.

  §1 Symbols  — the type, its code number and its order.
  §2 Texts    — lists of symbols, and writing strings and numbers as texts.
-/

namespace Amend

/-! ## §1 Symbols -/

/-- One position of a text: a Unicode character, or the surrogate with the
number `0xD800 + s`, which no character has. -/
inductive Symbol where
  | char (c : Char)
  | stray (s : Fin 0x800)
  deriving DecidableEq, Repr, Inhabited

namespace Symbol

/-- The number symbols are ordered by. -/
def code : Symbol → Nat
  | char c => c.toNat
  | stray s => 0xD800 + s.val

/-- The undecodable byte `b` is the surrogate `0xDC00 + b`. Bytes below 128
always decode, so no other byte can stray; they give the character they stand
for. -/
def ofByte (b : UInt8) : Symbol :=
  if 128 ≤ b.toNat then stray ⟨0x400 + b.toNat, by have := b.toNat_lt; omega⟩
  else char (Char.ofNat b.toNat)

/-- The symbol is no character. -/
def isSurrogate : Symbol → Bool
  | char _ => false
  | stray _ => true

/-- The symbol is a surrogate that stands for no byte. -/
def isLone : Symbol → Bool
  | char _ => false
  | stray s => s.val < 0x480 || 0x500 ≤ s.val

/-- Whether the symbol is the character `c`. -/
def is (s : Symbol) (c : Char) : Bool := s == char c

end Symbol

/-- The line feed, the only line break of normalized text. -/
def lf : Symbol := .char '\n'

/-- The carriage return. -/
def cr : Symbol := .char '\r'

/-! ## §2 Texts -/

/-- A text is a list of symbols. -/
abbrev Text := List Symbol

namespace Text

/-- The text of a string: one symbol a character. -/
def ofString (s : String) : Text := s.toList.map .char

instance : Coe String Text := ⟨ofString⟩

/-- A natural number in decimal digits. -/
def ofNat (n : Nat) : Text := ofString (Nat.repr n)

/-- An integer in decimal digits, with a minus sign below zero. -/
def ofInt : Int → Text
  | .ofNat n => ofNat n
  | .negSucc n => .char '-' :: ofNat (n + 1)

/-- The parts one after the other with `sep` between neighbours. -/
def join (sep : Text) (parts : List Text) : Text := List.intercalate sep parts

/-- Order by symbol numbers, the shorter text first where one continues
the other. -/
def le : Text → Text → Bool
  | [], _ => true
  | _ :: _, [] => false
  | a :: s, b :: t => if a.code = b.code then le s t else a.code < b.code

/-- Maps the ASCII capitals to small letters and leaves the rest. -/
def toLower (t : Text) : Text :=
  t.map fun
    | .char c => .char c.toLower
    | s => s

end Text

end Amend
