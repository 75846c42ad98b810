/-
Amend.Number.Binary64 — double-precision numbers as data.

A finite double is a sign, a significand below 2^53 and a power of two, so
equality is decidable and arithmetic is exact until the one rounding at its
end. Every operation computes a quotient of natural numbers and rounds it
to the nearest double, a tie going to the even significand.

  §1 The type and rounding a quotient into it.
  §2 Arithmetic and comparison.
  §3 The shortest decimal that reads back, and its written form.
-/
import Amend.Text.Symbol

namespace Amend

/-! ## §1 Doubles and rounding -/

/-- A double: a finite number `±significand · 2^exponent`, an infinity, or
no number. -/
inductive Binary64 where
  | finite (negative : Bool) (significand : Nat) (exponent : Int)
  | infinite (negative : Bool)
  | nan
  deriving DecidableEq, Repr, Inhabited

/-- The quotient rounded to the nearest integer, a tie to the even one. -/
def roundDiv (num den : Nat) : Nat :=
  let q := num / den
  let r := num % den
  if 2 * r < den then q
  else if den < 2 * r then q + 1
  else if q % 2 = 0 then q else q + 1

namespace Binary64

/-- The least exponent of a double. -/
def minExponent : Int := -1074

/-- The greatest exponent of a double. -/
def maxExponent : Int := 971

/-- Zero with a sign. -/
def zero (negative : Bool) : Binary64 := finite negative 0 minExponent

/-- `num / den · 2^shift` as a quotient of natural numbers. -/
def scaled (num den : Nat) (shift : Int) : Nat × Nat :=
  if 0 ≤ shift then (num * Nat.pow 2 shift.toNat, den)
  else (num, den * Nat.pow 2 (-shift).toNat)

/-- The double nearest to `± num / den`; beyond the greatest double it is an
infinity. -/
def ofRatio (negative : Bool) (num den : Nat) : Binary64 :=
  if num = 0 ∨ den = 0 then zero negative
  else
    let guess : Int := num.log2 - den.log2
    let (a, b) := scaled num den (-guess)
    let top : Int := if a < b then guess - 1 else guess
    let exponent := max (top - 52) minExponent
    let (a, b) := scaled num den (-exponent)
    let m := roundDiv a b
    let (m, exponent) := if m = Nat.pow 2 53 then (Nat.pow 2 52, exponent + 1) else (m, exponent)
    if maxExponent < exponent then infinite negative else finite negative m exponent

/-- The double nearest to an integer. -/
def ofInt (i : Int) : Binary64 := ofRatio (i < 0) i.natAbs 1

/-- The double nearest to `± digits · 10^power`. Powers far outside the
range of doubles are decided without computing them. -/
def ofDecimal (negative : Bool) (digits : Nat) (power : Int) : Binary64 :=
  if digits = 0 then zero negative
  else
    let size : Int := (Nat.repr digits).length + power
    if 400 < size then infinite negative
    else if size < -400 then zero negative
    else if 0 ≤ power then ofRatio negative (digits * Nat.pow 10 power.toNat) 1
    else ofRatio negative digits (Nat.pow 10 (-power).toNat)

/-- The magnitude of a finite double as a quotient. -/
def ratio (significand : Nat) (exponent : Int) : Nat × Nat := scaled significand 1 exponent

/-! ## §2 Arithmetic and comparison -/

/-- A finite double as a fraction with a positive denominator. -/
def fraction? : Binary64 → Option (Int × Nat)
  | finite negative m e =>
    let (a, b) := ratio m e
    some (if negative then -(a : Int) else a, b)
  | _ => none

/-- The double nearest to a fraction; zero comes out positive. -/
def ofFraction (num : Int) (den : Nat) : Binary64 := ofRatio (num < 0) num.natAbs den

/-- The product of two doubles. -/
def mul : Binary64 → Binary64 → Binary64
  | finite s m e, finite t n f =>
    let (a, b) := ratio m e
    let (c, d) := ratio n f
    ofRatio (s != t) (a * c) (b * d)
  | finite s m _, infinite t => if m = 0 then nan else infinite (s != t)
  | infinite s, finite t n _ => if n = 0 then nan else infinite (s != t)
  | infinite s, infinite t => infinite (s != t)
  | _, _ => nan

/-- The sum of two doubles. -/
def add (x y : Binary64) : Binary64 :=
  match x, y with
  | finite s m e, finite t n f =>
    if m = 0 ∧ n = 0 then zero (s && t)
    else
      let (a, b) := ratio m e
      let (c, d) := ratio n f
      let left : Int := if s then -(a * d : Nat) else (a * d : Nat)
      let right : Int := if t then -(c * b : Nat) else (c * b : Nat)
      ofFraction (left + right) (b * d)
  | infinite s, infinite t => if s = t then infinite s else nan
  | infinite s, finite .. => infinite s
  | finite .., infinite t => infinite t
  | _, _ => nan

/-- The number with its sign turned. -/
def neg : Binary64 → Binary64
  | finite s m e => finite (!s) m e
  | infinite s => infinite (!s)
  | nan => nan

/-- Whether the number is zero, of either sign. -/
def isZero : Binary64 → Bool
  | finite _ m _ => m == 0
  | _ => false

/-- The order of two doubles; no number compares with nothing. -/
def compare? : Binary64 → Binary64 → Option Ordering
  | nan, _ => none
  | _, nan => none
  | infinite s, infinite t => some (if s = t then .eq else if s then .lt else .gt)
  | infinite s, finite .. => some (if s then .lt else .gt)
  | finite .., infinite t => some (if t then .gt else .lt)
  | x@(finite ..), y@(finite ..) =>
    match x.fraction?, y.fraction? with
    | some (a, b), some (c, d) => some (compare (a * d) (c * b))
    | _, _ => none

/-- The order of a double and an integer, compared without rounding. -/
def compareInt? (x : Binary64) (i : Int) : Option Ordering :=
  match x with
  | nan => none
  | infinite s => some (if s then .lt else .gt)
  | finite .. =>
    match x.fraction? with
    | some (a, b) => some (compare a (i * b))
    | none => none

/-- The integer part of a finite double, toward zero. -/
def truncate? (x : Binary64) : Option Int := x.fraction?.map fun (a, b) => a.tdiv b

/-- Whether a finite double has no fractional part. -/
def isInteger (x : Binary64) : Bool :=
  match x.fraction? with
  | some (a, b) => a % b == 0
  | none => false

/-! ## §3 Decimal form -/

/-- How many decimal digits a natural number takes. -/
def decimalLength (n : Nat) : Nat := (Nat.repr n).length

/-- The power of ten just above `num / den`: it lies in `[10^(k-1), 10^k)`.
The quotient must not be below `10^-400`. -/
def magnitude (num den : Nat) : Int :=
  (decimalLength (num * Nat.pow 10 400 / den) : Int) - 400

/-- Drops the zeros at the end of a digit string's number. -/
def dropZeros : (fuel : Nat) → Nat → Nat
  | 0, n => n
  | fuel + 1, n => if n ≠ 0 ∧ n % 10 = 0 then dropZeros fuel (n / 10) else n

/-- Looks for the decimal with the fewest digits that lies between `low`
and `high`, the neighbours' midpoints, all over the denominator `den`. On
the grid of `count` digits only the two points beside the value matter; of
two hits the nearer wins, and the even one where they are equally near. -/
def shortestFrom (value low high den : Nat) (closed : Bool) (k : Int) :
    (fuel : Nat) → (count : Nat) → Nat × Nat
  | 0, count => (0, count)
  | fuel + 1, count =>
    let step : Int := k - count
    -- in units of the grid: x / unit with everything over `den`
    let (scale, unit) : Nat × Nat :=
      if 0 ≤ step then (1, den * Nat.pow 10 step.toNat) else (Nat.pow 10 (-step).toNat, den)
    let inside (n : Nat) : Bool :=
      let x := n * unit
      if closed then low * scale ≤ x && x ≤ high * scale
      else low * scale < x && x < high * scale
    let below := value * scale / unit
    let hitBelow := below != 0 && inside below
    let hitAbove := inside (below + 1)
    if hitBelow && hitAbove then (roundDiv (value * scale) unit, count)
    else if hitBelow then (below, count)
    else if hitAbove then (below + 1, count)
    else shortestFrom value low high den closed k fuel (count + 1)

/-- The fewest decimal digits that read back as the positive double
`m · 2^e`, and the power `k` with the value `0.digits · 10^k`. -/
def shortest (m : Nat) (e : Int) : Nat × Int :=
  let (num, den) := scaled (4 * m) 4 e
  let gapDown := if m = Nat.pow 2 52 ∧ minExponent < e then 1 else 2
  let (low, _) := scaled (4 * m - gapDown) 4 e
  let (high, _) := scaled (4 * m + 2) 4 e
  let k := magnitude num den
  let (digits, count) := shortestFrom num low high den (m % 2 = 0) k 17 1
  -- the upper grid point may have one digit more
  let k := if decimalLength digits = count + 1 then k + 1 else k
  (dropZeros count digits, k)

/-- How a number is written: positional when the decimal point falls from
three places before the digits to sixteen into them, with at least one
place after the point; otherwise with an exponent of two digits or more. -/
def render : Binary64 → String
  | nan => "nan"
  | infinite s => if s then "-inf" else "inf"
  | finite s m e =>
    let body :=
      if m = 0 then "0.0"
      else
        let (digits, k) := shortest m e
        let ds := Nat.repr digits
        let n := ds.length
        if -4 < k ∧ k ≤ 16 then
          if k ≤ 0 then "0." ++ String.ofList (List.replicate (-k).toNat '0') ++ ds
          else if (n : Int) ≤ k then
            ds ++ String.ofList (List.replicate (k.toNat - n) '0') ++ ".0"
          else
            String.ofList (ds.toList.take k.toNat) ++ "." ++ String.ofList (ds.toList.drop k.toNat)
        else
          let mantissa :=
            match ds.toList with
            | d :: [] => String.ofList [d]
            | d :: r => String.ofList (d :: '.' :: r)
            | [] => ""
          let x := k - 1
          let xs := Nat.repr x.natAbs
          let xs := if xs.length < 2 then "0" ++ xs else xs
          mantissa ++ (if x < 0 then "e-" else "e+") ++ xs
    if s then "-" ++ body else body

/-- A non-negative double rounded to the nearest integer, a tie to the even
one. Infinities and no number have none. -/
def rounded? : Binary64 → Option Nat
  | finite _ m e => let (a, b) := ratio m e; some (roundDiv a b)
  | _ => none

end Binary64

end Amend
