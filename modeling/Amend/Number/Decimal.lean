/-
Amend.Number.Decimal — reading integers from text.

A decimal digit is any character that Unicode 14 classes as one, whatever
the script. An integer is a sign and digits, single underscores between
digits, and white space around; numbers of more than `digitLimit` digits
are refused.
-/
import Amend.Text.Blank

namespace Amend

/-- The code points of the digits zero; each is followed by its script's
other nine. -/
def digitZeros : List Nat :=
  [0x0030, 0x0660, 0x06F0, 0x07C0, 0x0966, 0x09E6, 0x0A66, 0x0AE6, 0x0B66, 0x0BE6, 0x0C66, 0x0CE6,
   0x0D66, 0x0DE6, 0x0E50, 0x0ED0, 0x0F20, 0x1040, 0x1090, 0x17E0, 0x1810, 0x1946, 0x19D0, 0x1A80,
   0x1A90, 0x1B50, 0x1BB0, 0x1C40, 0x1C50, 0xA620, 0xA8D0, 0xA900, 0xA9D0, 0xA9F0, 0xAA50, 0xABF0,
   0xFF10, 0x104A0, 0x10D30, 0x11066, 0x110F0, 0x11136, 0x111D0, 0x112F0, 0x11450, 0x114D0,
   0x11650, 0x116C0, 0x11730, 0x118E0, 0x11950, 0x11C50, 0x11D50, 0x11DA0, 0x16A60, 0x16AC0,
   0x16B50, 0x1D7CE, 0x1D7D8, 0x1D7E2, 0x1D7EC, 0x1D7F6, 0x1E140, 0x1E2F0, 0x1E950, 0x1FBF0]

/-- The value of a decimal digit. -/
def Symbol.digit? : Symbol → Option Nat
  | .char c =>
    let n := c.toNat
    if n < 0x80 then
      if 0x30 ≤ n ∧ n ≤ 0x39 then some (n - 0x30) else none
    else (digitZeros.find? fun z => z ≤ n && n ≤ z + 9).map fun z => n - z
  | .stray _ => none

/-- The greatest number of decimal digits that is converted. -/
def digitLimit : Nat := 4300

/-- Why a text is no integer. -/
inductive IntegerError where
  | malformed
  | tooLong (digits : Nat)
  deriving DecidableEq, Repr

namespace Decimal

/-- The number that digits stand for, after `acc`. -/
def ofDigits (acc : Nat) (ds : List Nat) : Nat := ds.foldl (fun n d => n * 10 + d) acc

/-- The digits at the start of a text and what follows them; single
underscores may stand between two digits, and another underscore makes the
text no number. `afterDigit` says whether a digit was just read. -/
def digitRun? : (afterDigit : Bool) → Text → Option (List Nat × Text)
  | afterDigit, [] => if afterDigit then some ([], []) else none
  | afterDigit, s :: t =>
    match s.digit? with
    | some d => (digitRun? true t).map fun (ds, r) => (d :: ds, r)
    | none =>
      if !afterDigit then none else if s.is '_' then digitRun? false t else some ([], s :: t)

/-- The digits of a text that holds nothing else. -/
def digits? (t : Text) : Option (List Nat) :=
  match digitRun? false t with
  | some (ds, []) => some ds
  | _ => none

/-- White space that may stand around a number; the separators U+001C to
U+001F may not. -/
def isPadding (s : Symbol) : Bool := s.isSpace && !(0x1C ≤ s.code && s.code ≤ 0x1F)

/-- A number without the white space around it. -/
def unpad (t : Text) : Text := ((t.dropWhile isPadding).reverse.dropWhile isPadding).reverse

/-- Reads digits that carry no sign, with white space after them. That there
are too many of them is seen before what follows them. -/
def readDigits (t : Text) : Except IntegerError Nat :=
  match digitRun? false t with
  | none => .error .malformed
  | some (ds, r) =>
    if digitLimit < ds.length then .error (.tooLong ds.length)
    else if r.all isPadding then .ok (ofDigits 0 ds)
    else .error .malformed

/-- Reads an integer with white space around it. -/
def readInt (t : Text) : Except IntegerError Int :=
  match t.dropWhile isPadding with
  | .char '-' :: t => (readDigits t).map fun n => -(n : Int)
  | .char '+' :: t => (readDigits t).map Int.ofNat
  | t => (readDigits t).map Int.ofNat

end Decimal

end Amend
