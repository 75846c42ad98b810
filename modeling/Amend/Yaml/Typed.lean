/-
Amend.Yaml.Typed — the values of scalars of each type.

A type is given to a plain scalar by its shape, but to any scalar by a tag,
so a scalar can claim to be a number and be none. Underscores in numbers
have no meaning. Numbers with colons are to the base sixty.

  §1 Numbers.
  §2 Dates and moments.
  §3 Bytes.
  §4 Scalars of any type.
-/
import Amend.Number.Radix
import Amend.Text.Case
import Amend.Value.Basic
import Amend.Yaml.Tag

namespace Amend.Yaml.Typed

/-! ## §1 Numbers -/

/-- A text as error messages about numbers give it. -/
def noInteger (base : Nat) (t : Text) : Error :=
  .fault (.noNumber ("invalid literal for int() with base " ++ Text.ofNat base ++ ": " ++ (Text.quoted t).take 200))

/-- An integer to the base ten. -/
def decimal (t : Text) : Except Error Int :=
  match Decimal.readInt t with
  | .ok i => .ok i
  | .error .malformed => .error (noInteger 10 t)
  | .error (.tooLong n) => .error (.fault (.tooManyDigits n))

/-- An integer to another base. -/
def radix (base : Nat) (t : Text) : Except Error Int :=
  match Radix.readInt? base t with
  | some i => .ok i
  | none => .error (noInteger base t)

/-- A double. -/
def double (t : Text) : Except Error Binary64 :=
  match Radix.readDouble? t with
  | some x => .ok x
  | none => .error (.fault (.noNumber ("could not convert string to float: " ++ Text.quoted t)))

/-- The parts of a number between its colons. -/
def parts (t : Text) : List Text :=
  t.foldr (fun s acc =>
    if s.is ':' then [] :: acc
    else
      match acc with
      | p :: ps => (s :: p) :: ps
      | [] => [[s]]) [[]]

/-- The text without underscores. -/
def dense (t : Text) : Text := t.filter fun s => !s.is '_'

/-- An integer: to the base two, eight or sixteen if it begins as one, to the
base sixty if there are colons in it. -/
def integer (t : Text) : Except Error Int := do
  let (negative, t) := Radix.takeSign (dense t)
  let n ←
    match t with
    | [] => throw (.fault .emptyNumber)
    | [.char '0'] => pure 0
    | .char '0' :: .char 'b' :: r => radix 2 r
    | .char '0' :: .char 'x' :: r => radix 16 r
    | .char '0' :: _ => radix 8 t
    | _ =>
      let ns ← (parts t).mapM decimal
      pure (ns.foldl (fun n d => n * 60 + d) 0)
  return if negative then -n else n

/-- The sum of the parts of a number to the base sixty, added from the last
one on. A weight that is too great for a double is a fault. -/
def sixtySum : List Binary64 → Except Error Binary64
  | [x] => .ok x
  | xs => (xs.reverse.foldlM next (.zero false, 1)).map Prod.fst
where
  /-- The sum with one more part, and the weight of the part before that. -/
  next (acc : Binary64 × Int) (x : Binary64) : Except Error (Binary64 × Int) :=
    match Binary64.ofInt acc.2 with
    | .infinite _ => .error (.fault .tooGreat)
    | weight => .ok (acc.1.add (x.mul weight), acc.2 * 60)

/-- A text as a number is read from it: without underscores and in small
letters. -/
def plainWord (t : Text) : Text := Text.toSmallLetters (dense t)

/-- The word for what is no number. -/
def nanWord : Text := ".nan"

/-- Whether a text is the word for what is no number, under either sign. -/
def isNanWord (t : Text) : Bool := (Radix.takeSign (plainWord t)).2 == nanWord

/-- A double; with colons, it is to the base sixty. -/
def float (t : Text) : Except Error Binary64 := do
  let t := plainWord t
  if t.isEmpty then throw (.fault .emptyNumber)
  let (negative, t) := Radix.takeSign t
  let x ←
    if t == (".inf" : Text) then pure (.infinite false)
    else if t == nanWord then pure .nan
    else do sixtySum (← (parts t).mapM double)
  return if negative then x.neg else x

/-! ## §2 Dates and moments -/

/-- A number of `least` to `most` digits, as many as there are. -/
def takeDigits? (least most : Nat) (cs : List Char) : Option (Nat × List Char) :=
  let ds := (cs.take most).takeWhile Char.isDigit
  if ds.length < least then none
  else some (Decimal.ofDigits 0 (ds.map fun d => d.toNat - 0x30), cs.drop ds.length)

/-- What follows the character `c`. -/
def after? (c : Char) : List Char → Option (List Char)
  | d :: r => if d == c then some r else none
  | [] => none

/-- The millionths of a second that digits after the point stand for. -/
def micro (ds : List Char) : Nat :=
  let ds := ds.take 6
  Decimal.ofDigits 0 (ds.map fun d => d.toNat - 0x30) * Nat.pow 10 (6 - ds.length)

/-- An offset from universal time in seconds, which takes all the characters. -/
def zone? (cs : List Char) : Option Int :=
  match cs.dropWhile isBlank with
  | ['Z'] => some 0
  | sign :: r => do
    if sign != '+' && sign != '-' then none
    let (hours, r) ← takeDigits? 1 2 r
    let minutes ←
      if r.isEmpty then some 0
      else do
        let (m, r) ← takeDigits? 2 2 (← after? ':' r)
        if r.isEmpty then some m else none
    let seconds : Int := (hours * 60 + minutes : Nat) * 60
    return if sign == '-' then -seconds else seconds
  | [] => none

/-- The time of day and the offset after a date. -/
structure Time where
  hour : Nat
  minute : Nat
  second : Nat
  micro : Nat
  offset : Option Int

/-- A time of day, which takes all the characters. -/
def time? (cs : List Char) : Option Time := do
  let r ←
    match cs with
    | c :: r =>
      if c == 'T' || c == 't' then some r
      else if isBlank c then some (r.dropWhile isBlank) else none
    | [] => none
  let (hour, r) ← takeDigits? 1 2 r
  let (minute, r) ← takeDigits? 2 2 (← after? ':' r)
  let (second, r) ← takeDigits? 2 2 (← after? ':' r)
  let (fraction, r) : List Char × List Char :=
    match after? '.' r with
    | some r => (r.takeWhile Char.isDigit, r.dropWhile Char.isDigit)
    | none => ([], r)
  let offset ← if r.isEmpty then some none else (zone? r).map some
  return ⟨hour, minute, second, micro fraction, offset⟩

/-- The year, month and day at the start of some characters. -/
def day? (cs : List Char) : Option (Nat × Nat × Nat × List Char) := do
  let (year, r) ← takeDigits? 4 4 cs
  let (month, r) ← takeDigits? 1 2 (← after? '-' r)
  let (day, r) ← takeDigits? 1 2 (← after? '-' r)
  return (year, month, day, r)

/-- A date or a moment, which must exist. -/
def timestamp (t : Text) : Except Error Value :=
  let read : Option (Except CalendarError Value) := do
    let cs ← t.mapM fun | .char c => some c | .stray _ => none
    let cs := if cs.getLast? = some '\n' then cs.dropLast else cs
    let (year, month, day, r) ← day? cs
    if r.isEmpty then return (Date.make year month day).map .date
    else
      let k ← time? r
      return (Moment.make year month day k.hour k.minute k.second k.micro k.offset).map .moment
  match read with
  | some (.ok v) => .ok v
  | some (.error e) => .error (.fault (.calendar e))
  | none => .error (.fault (.noFields "NoneType" "groupdict"))

/-! ## §3 Bytes -/

/-- The six bits of a letter of base 64. -/
def sixBits? (c : Char) : Option Nat :=
  if 'A' ≤ c ∧ c ≤ 'Z' then some (c.toNat - 0x41)
  else if 'a' ≤ c ∧ c ≤ 'z' then some (c.toNat - 0x47)
  else if '0' ≤ c ∧ c ≤ '9' then some (c.toNat + 4)
  else if c = '+' then some 62
  else if c = '/' then some 63
  else none

/-- The bytes of base 64 after `count` letters of a group of four, which left
the bits `left`; `pads` equals signs have followed them. Other characters
have no meaning. The equals sign that fills a group ends the text; without
it the text must end with a whole group. -/
def base64From : (count left pads : Nat) → List Char → Option Bytes
  | count, _, _, [] => if count = 0 then some [] else none
  | count, left, pads, c :: r =>
    if c = '=' then
      if 2 ≤ count then
        if 4 ≤ count + pads + 1 then some [] else base64From count left (pads + 1) r
      else base64From count left pads r
    else
      match sixBits? c with
      | none => base64From count left pads r
      | some n =>
        if count = 0 then base64From 1 n 0 r
        else if count = 1 then (base64From 2 (n % 16) 0 r).map (.ofNat (left * 4 + n / 16) :: ·)
        else if count = 2 then (base64From 3 (n % 4) 0 r).map (.ofNat (left * 16 + n / 4) :: ·)
        else (base64From 0 0 0 r).map (.ofNat (left * 64 + n) :: ·)

/-- Bytes in base 64, which must be ASCII. -/
def binary (t : Text) : Except Error Bytes :=
  if t.all fun s => s.code < 0x80 then
    match base64From 0 0 0 (t.map fun s => Char.ofNat s.code) with
    | some bs => .ok bs
    | none => .error .malformed
  else .error .malformed

/-! ## §4 Scalars of any type -/

/-- A truth value by its word. -/
def truth (t : Text) : Except Error Bool :=
  let word := Text.toSmallLetters t
  match Shape.truthWords.find? fun w => word == Text.ofString w.1 with
  | some (_, b) => .ok b
  | none => .error (.fault (.noWord word))

/-- Whether a type is one of scalars that have values. -/
def isScalar : Tag → Bool
  | .null | .bool | .int | .float | .binary | .timestamp | .text => true
  | _ => false

/-- The value of a scalar; collections are none. -/
def scalar (tag : Tag) (t : Text) : Except Error Value :=
  match tag with
  | .null => .ok .null
  | .bool => (truth t).map .bool
  | .int => (integer t).map .int
  | .float => (float t).map .float
  | .binary => (binary t).map .bytes
  | .timestamp => timestamp t
  | .text => .ok (.text t)
  | _ => .error .malformed

end Amend.Yaml.Typed
