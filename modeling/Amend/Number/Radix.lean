/-
Amend.Number.Radix — reading integers to a base other than ten, and doubles.

Both readers take white space around the number, one sign, and digits of any
script with single underscores between them.
-/
import Amend.Number.Binary64
import Amend.Number.Decimal

namespace Amend

/-- The value of a digit to a base up to sixteen. -/
def Symbol.radixDigit? (base : Nat) (s : Symbol) : Option Nat :=
  let value : Option Nat :=
    match s.digit?, s with
    | some d, _ => some d
    | none, .char c =>
      let c := c.toLower
      if 'a' ≤ c ∧ c ≤ 'f' then some (c.toNat - 0x57) else none
    | none, .stray _ => none
  value.filter (· < base)

namespace Radix

/-- The sign of a number, and what follows it. -/
def takeSign : Text → Bool × Text
  | .char '-' :: t => (true, t)
  | .char '+' :: t => (false, t)
  | t => (false, t)

/-- The letter that may stand after a zero in front of a number to a base. -/
def letter? (base : Nat) : Option Char :=
  if base = 2 then some 'b' else if base = 8 then some 'o' else if base = 16 then some 'x' else none

/-- The digits after the letter of the base, if that is there. -/
def dropLetter (base : Nat) (t : Text) : Text :=
  match t, letter? base with
  | .char '0' :: .char c :: r, some l =>
    if c.toLower == l then
      match r with
      | .char '_' :: r => r
      | r => r
    else t
  | t, _ => t

/-- The digits of a text that holds nothing else, single underscores between
two of them apart. -/
def digits? (base : Nat) : (afterDigit : Bool) → Text → Option (List Nat)
  | afterDigit, [] => if afterDigit then some [] else none
  | afterDigit, s :: t =>
    match s.radixDigit? base with
    | some d => (digits? base true t).map (d :: ·)
    | none => if afterDigit && s.is '_' then digits? base false t else none

/-- The number that digits to a base stand for. -/
def ofDigits (base : Nat) (ds : List Nat) : Nat := ds.foldl (fun n d => n * base + d) 0

/-- Reads an integer to a base. -/
def readInt? (base : Nat) (t : Text) : Option Int :=
  let (negative, t) := takeSign (Decimal.unpad t)
  (digits? base false (dropLetter base t)).map fun ds =>
    let n : Int := ofDigits base ds
    if negative then -n else n

/-- The text up to the first symbol that satisfies `p`, and what follows that
symbol, if there is one. -/
def cut (p : Symbol → Bool) : Text → Text × Option Text
  | [] => ([], none)
  | s :: t => if p s then ([], some t) else let (a, b) := cut p t; (s :: a, b)

/-- Digits, of which there may be none. -/
def looseDigits? (t : Text) : Option (List Nat) :=
  if t.isEmpty then some [] else Decimal.digits? t

/-- Reads a double: digits with a point and an exponent, or a word for what
is no finite number. -/
def readDouble? (t : Text) : Option Binary64 :=
  let (negative, t) := takeSign (Decimal.unpad t)
  let word := Text.toLower t
  if word == ("inf" : Text) || word == ("infinity" : Text) then some (.infinite negative)
  else if word == ("nan" : Text) then some .nan
  else do
    let (mantissa, exponent) := cut (fun s => s.is 'e' || s.is 'E') t
    let (whole, fraction) := cut (·.is '.') mantissa
    let whole ← looseDigits? whole
    let fraction ← looseDigits? (fraction.getD [])
    if whole.isEmpty && fraction.isEmpty then none
    else
      let power : Int ←
        match exponent with
        | none => some 0
        | some e => do
          let (below, e) := takeSign e
          let ds ← Decimal.digits? e
          let n : Int := Decimal.ofDigits 0 ds
          some (if below then -n else n)
      return Binary64.ofDecimal negative (Decimal.ofDigits 0 (whole ++ fraction))
        (power - fraction.length)

end Radix

end Amend
