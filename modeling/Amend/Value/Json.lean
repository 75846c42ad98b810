/-
Amend.Value.Json — reading and writing values as JSON.

The reader takes standard JSON and the three numbers that have no digits,
keeps integers apart from numbers with a point or an exponent, and lets the
last of several equal keys win. It reads from left to right, so an integer
of too many digits is reported before a fault further on. The writer uses
ASCII only and a space after each comma and colon.

  §1 Reading.
  §2 Writing.
-/
import Amend.Value.Display

namespace Amend.Json

/-! ## §1 Reading -/

/-- Why a text is no JSON value. -/
inductive Error where
  | malformed
  | tooLong (digits : Nat)
  /-- Too many lists and mappings stand inside each other; the innermost is a
  mapping or not. -/
  | tooDeep (mapping : Bool)
  deriving DecidableEq, Repr

/-- The white space of JSON. -/
def isSpace (s : Symbol) : Bool := s.is ' ' || s.is '\t' || s.is '\n' || s.is '\r'

/-- Skips white space. -/
def skip (t : Text) : Text := t.dropWhile isSpace

/-- The value of an ASCII digit. -/
def digit? : Symbol → Option Nat
  | .char c => if '0' ≤ c ∧ c ≤ '9' then some (c.toNat - 0x30) else none
  | _ => none

/-- The value of a hexadecimal digit. -/
def hexValue? : Symbol → Option Nat
  | .char c =>
    if '0' ≤ c ∧ c ≤ '9' then some (c.toNat - 0x30)
    else if 'a' ≤ c ∧ c ≤ 'f' then some (c.toNat - 0x57)
    else if 'A' ≤ c ∧ c ≤ 'F' then some (c.toNat - 0x37)
    else none
  | _ => none

/-- The digits at the start of a text, and the text after them. -/
def takeDigits : Text → List Nat × Text
  | [] => ([], [])
  | s :: t =>
    match digit? s with
    | some d => let (ds, r) := takeDigits t; (d :: ds, r)
    | none => ([], s :: t)

/-- Four hexadecimal digits. -/
def takeHex : Text → Option (Nat × Text)
  | a :: b :: c :: d :: t => do
    let w ← hexValue? a
    let x ← hexValue? b
    let y ← hexValue? c
    let z ← hexValue? d
    return (((w * 16 + x) * 16 + y) * 16 + z, t)
  | _ => none

/-- The symbol of a code number: a surrogate or a character. A number beyond
them has the replacement character. -/
def symbolOfCode (n : Nat) : Symbol :=
  if h : 0xD800 ≤ n ∧ n < 0xE000 then .stray ⟨n - 0xD800, by omega⟩
  else if h : n.isValidChar then .char (Char.ofNatAux n h)
  else .char '\uFFFD'

/-- The escape after a backslash. Two escapes that are a surrogate pair give
one character. -/
def takeEscape : Text → Option (Symbol × Text)
  | .char '"' :: t => some (.char '"', t)
  | .char '\\' :: t => some (.char '\\', t)
  | .char '/' :: t => some (.char '/', t)
  | .char 'b' :: t => some (.char '\x08', t)
  | .char 'f' :: t => some (.char '\x0c', t)
  | .char 'n' :: t => some (.char '\n', t)
  | .char 'r' :: t => some (.char '\r', t)
  | .char 't' :: t => some (.char '\t', t)
  | .char 'u' :: t => do
    let (n, t) ← takeHex t
    if 0xD800 ≤ n ∧ n < 0xDC00 then
      match t with
      | .char '\\' :: .char 'u' :: r =>
        match takeHex r with
        | some (m, r) =>
          if 0xDC00 ≤ m ∧ m < 0xE000 then
            return (.char (Char.ofNat (0x10000 + (n - 0xD800) * 0x400 + (m - 0xDC00))), r)
          else return (symbolOfCode n, t)
        | none => return (symbolOfCode n, t)
      | _ => return (symbolOfCode n, t)
    else return (symbolOfCode n, t)
  | _ => none

/-- The rest of a string after its opening quote: its body as written, and
the text after the closing quote. Control characters must be escaped. -/
def takeBody : Text → Option (Text × Text)
  | [] => none
  | .char '"' :: r => some ([], r)
  | .char '\\' :: s :: r => (takeBody r).map fun (body, r) => (.char '\\' :: s :: body, r)
  | s :: r => if s.code < 0x20 then none else (takeBody r).map fun (body, r) => (s :: body, r)

/-- A string's body with its escapes resolved. `fuel` bounds its length. -/
def unescape : (fuel : Nat) → Text → Option Text
  | 0, _ => none
  | fuel + 1, t =>
    match t with
    | [] => some []
    | .char '\\' :: r => do
      let (s, r) ← takeEscape r
      return s :: (← unescape fuel r)
    | s :: r => (unescape fuel r).map (s :: ·)

/-- The rest of a string after its opening quote. -/
def takeString (t : Text) : Option (Text × Text) := do
  let (body, r) ← takeBody t
  return (← unescape (body.length + 1) body, r)

/-- The exponent of a number, if a whole one follows. -/
def takeExponent : Text → Option (Int × Text)
  | s :: t =>
    if s.is 'e' || s.is 'E' then
      let (negative, t) :=
        match t with
        | .char '-' :: r => (true, r)
        | .char '+' :: r => (false, r)
        | r => (false, r)
      match takeDigits t with
      | ([], _) => none
      | (ds, r) =>
        let n : Int := Decimal.ofDigits 0 ds
        some (if negative then -n else n, r)
    else none
  | [] => none

/-- A number: an integer, or a double if it has a fraction or an exponent. -/
def takeNumber (t : Text) : Except Error (Value × Text) :=
  let (negative, t) :=
    match t with
    | .char '-' :: r => (true, r)
    | r => (false, r)
  match takeDigits t with
  | ([], _) => .error .malformed
  | (0 :: _ :: _, _) =>
    -- a leading zero stands alone; the digits after it are left over
    finish negative [0] (t.drop 1)
  | (whole, r) => finish negative whole r
where
  /-- The number after its whole part. -/
  finish (negative : Bool) (whole : List Nat) (r : Text) : Except Error (Value × Text) :=
    let (fraction, r, hasFraction) : List Nat × Text × Bool :=
      match r with
      | .char '.' :: q =>
        match takeDigits q with
        | ([], _) => ([], r, false)
        | (ds, q) => (ds, q, true)
      | _ => ([], r, false)
    match takeExponent r with
    | some (e, r) =>
      .ok (.float (Binary64.ofDecimal negative (Decimal.ofDigits 0 (whole ++ fraction))
        (e - fraction.length)), r)
    | none =>
      if hasFraction then
        .ok (.float (Binary64.ofDecimal negative (Decimal.ofDigits 0 (whole ++ fraction))
          (-fraction.length)), r)
      else if digitLimit < whole.length then .error (.tooLong whole.length)
      else
        let n : Int := Decimal.ofDigits 0 whole
        .ok (.int (if negative then -n else n), r)

/-- A word that stands for a value. -/
def takeWord (t : Text) : Except Error (Value × Text) :=
  let words : List (String × Value) :=
    [("null", .null), ("true", .bool true), ("false", .bool false), ("NaN", .float .nan),
     ("Infinity", .float (.infinite false)), ("-Infinity", .float (.infinite true))]
  match words.find? fun w => (Text.ofString w.1).isPrefixOf t with
  | some (w, v) => .ok (v, t.drop w.length)
  | none => .error .malformed

/-- The entries with a value put at a text key. -/
def putEntry (entries : List (Value × Value)) (key : Text) (value : Value) :
    List (Value × Value) := Value.put entries (.text key) value

/-- How many lists and mappings may stand inside each other. -/
def depthLimit : Nat := 988

mutual

/-- A value at the start of a text. `room` says how many lists and mappings
may still be opened inside each other; `fuel` bounds the values looked at. -/
def takeValue (room : Nat) : (fuel : Nat) → Text → Except Error (Value × Text)
  | 0, _ => .error .malformed
  | fuel + 1, t =>
    match t with
    | [] => .error .malformed
    | .char '"' :: r =>
      match takeString r with
      | some (s, r) => .ok (.text s, r)
      | none => .error .malformed
    | .char '[' :: r =>
      if room = 0 then .error (.tooDeep false)
      else
        match skip r with
        | .char ']' :: r => .ok (.list [], r)
        | r => takeItems (room - 1) fuel [] r
    | .char '\x7b' :: r =>
      if room = 0 then .error (.tooDeep true)
      else
        match skip r with
        | .char '\x7d' :: r => .ok (.mapping [], r)
        | r => takeEntries (room - 1) fuel [] r
    | s :: _ =>
      match takeWord t with
      | .ok a => .ok a
      | .error _ => if s.is '-' || (digit? s).isSome then takeNumber t else .error .malformed

/-- The items of a list from the next one on; `acc` holds those before, the
last one first. -/
def takeItems (room : Nat) : (fuel : Nat) → (acc : List Value) → Text → Except Error (Value × Text)
  | 0, _, _ => .error .malformed
  | fuel + 1, acc, t => do
    let (v, r) ← takeValue room fuel t
    match skip r with
    | .char ',' :: r => takeItems room fuel (v :: acc) (skip r)
    | .char ']' :: r => return (.list (v :: acc).reverse, r)
    | _ => throw .malformed

/-- The entries of a mapping from the next one on. -/
def takeEntries (room : Nat) : (fuel : Nat) → (acc : List (Value × Value)) → Text → Except Error (Value × Text)
  | 0, _, _ => .error .malformed
  | fuel + 1, acc, t =>
    match t with
    | .char '"' :: r =>
      match takeString r with
      | none => .error .malformed
      | some (key, r) =>
        match skip r with
        | .char ':' :: r => do
          let (v, r) ← takeValue room fuel (skip r)
          let acc := putEntry acc key v
          match skip r with
          | .char ',' :: r => takeEntries room fuel acc (skip r)
          | .char '\x7d' :: r => return (.mapping acc, r)
          | _ => throw .malformed
        | _ => .error .malformed
    | _ => .error .malformed

end

/-- Reads a text that holds one value and white space around it. -/
def read (t : Text) : Except Error Value := do
  if t.head? = some (.char '\uFEFF') then throw .malformed
  let (v, r) ← takeValue depthLimit (2 * t.length + 1) (skip t)
  if (skip r).isEmpty then return v else throw .malformed

/-! ## §2 Writing -/

/-- A symbol inside a string. Characters beyond the first plane take two
escapes. -/
def writeSymbol (s : Symbol) : Text :=
  let escape (n : Nat) : List Char := '\\' :: 'u' :: Text.hex 4 n
  let cs : List Char :=
    if s.is '"' then ['\\', '"']
    else if s.is '\\' then ['\\', '\\']
    else if s.is '\n' then ['\\', 'n']
    else if s.is '\r' then ['\\', 'r']
    else if s.is '\t' then ['\\', 't']
    else if s.is '\x08' then ['\\', 'b']
    else if s.is '\x0c' then ['\\', 'f']
    else
      let n := s.code
      if 0x20 ≤ n && n < 0x7F then [Char.ofNat n]
      else if n < 0x10000 then escape n
      else
        let m := n - 0x10000
        escape (0xD800 + m / 0x400) ++ escape (0xDC00 + m % 0x400)
  cs.map .char

/-- A text as a JSON string. -/
def writeText (t : Text) : Text := "\"" ++ t.flatMap writeSymbol ++ "\""

/-- A double as a JSON number, or as one of the three words. -/
def writeFloat : Binary64 → Text
  | .nan => "NaN"
  | .infinite s => if s then "-Infinity" else "Infinity"
  | x => Text.ofString x.render

/-- The key of an entry: texts as they are, other values by their words. -/
def keyText : Value → Text
  | .text t => t
  | .null => "null"
  | .bool b => if b then "true" else "false"
  | .float x => writeFloat x
  | v => v.shown

mutual

/-- The value as JSON. Kinds that JSON has no form for are written as texts. -/
def write : Value → Text
  | .null => "null"
  | .bool b => if b then "true" else "false"
  | .int i => Text.ofInt i
  | .float x => writeFloat x
  | .text t => writeText t
  | .list xs | .tuple xs | .set xs => "[" ++ writeAll xs ++ "]"
  | .mapping es => "\x7b" ++ writeEntries es ++ "\x7d"
  | v => writeText v.shown

/-- The items of a list. -/
def writeAll : List Value → Text
  | [] => []
  | [x] => write x
  | x :: xs => write x ++ ", " ++ writeAll xs

/-- The entries of a mapping. -/
def writeEntries : List (Value × Value) → Text
  | [] => []
  | [(k, v)] => writeText (keyText k) ++ ": " ++ write v
  | (k, v) :: es => writeText (keyText k) ++ ": " ++ write v ++ ", " ++ writeEntries es

end

end Amend.Json
