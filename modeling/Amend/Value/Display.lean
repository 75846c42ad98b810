/-
Amend.Value.Display — values in words.

`display` writes a value so that its kind can be told: texts are quoted,
numbers with a point are written with one, and collections show their
members. `shown` is the same but for a text, which stands for itself. An
integer of more than `digitLimit` digits is not written out, nor are values
inside each other beyond what there is room for.
-/
import Amend.Number.Decimal
import Amend.Text.Printable
import Amend.Value.Basic

namespace Amend.Value

/-- A byte string as a quoted literal; only printable ASCII stands for
itself. -/
def quotedBytes (bs : Bytes) : Text :=
  let quote : Char := if bs.any (· == 0x27) && !bs.any (· == 0x22) then '"' else '\''
  let one (b : UInt8) : Text :=
    if b < 0x80 then Text.quoteSymbol quote (.char (Char.ofNat b.toNat))
    else (['\\', 'x'] ++ Text.hex 2 b.toNat).map .char
  .char 'b' :: .char quote :: bs.flatMap one ++ [.char quote]

mutual

/-- Whether a value holds an integer too long to be written out. -/
def tooLong : Value → Bool
  | int i => digitLimit < Binary64.decimalLength i.natAbs
  | list xs | tuple xs | set xs => anyTooLong xs
  | mapping es => anyEntryTooLong es
  | _ => false

/-- Whether a value of a list is too long. -/
def anyTooLong : List Value → Bool
  | [] => false
  | x :: xs => tooLong x || anyTooLong xs

/-- Whether a key or a value of an entry is too long. -/
def anyEntryTooLong : List (Value × Value) → Bool
  | [] => false
  | (k, v) :: es => tooLong k || tooLong v || anyEntryTooLong es

end

mutual

/-- The value written so that its kind can be told. -/
def display : Value → Text
  | null => "None"
  | bool b => if b then "True" else "False"
  | int i => Text.ofInt i
  | float x => Text.ofString x.render
  | text t => Text.quoted t
  | bytes bs => quotedBytes bs
  | date d => Text.ofString d.display
  | moment m => Text.ofString m.display
  | list xs => "[" ++ displayAll xs ++ "]"
  | tuple xs =>
    match xs with
    | [x] => "(" ++ display x ++ ",)"
    | xs => "(" ++ displayAll xs ++ ")"
  | set xs => if xs.isEmpty then "set()" else "\x7b" ++ displayAll xs ++ "\x7d"
  | mapping es => "\x7b" ++ displayEntries es ++ "\x7d"
  | recurrence ofMapping => if ofMapping then "\x7b...\x7d" else "[...]"

/-- The values of a list with commas between them. -/
def displayAll : List Value → Text
  | [] => []
  | [x] => display x
  | x :: xs => display x ++ ", " ++ displayAll xs

/-- The entries of a mapping with commas between them. -/
def displayEntries : List (Value × Value) → Text
  | [] => []
  | [(k, v)] => display k ++ ": " ++ display v
  | (k, v) :: es => display k ++ ": " ++ display v ++ ", " ++ displayEntries es

end

/-- The value in running text. -/
def shown : Value → Text
  | text t => t
  | date d => Text.ofString d.shown
  | moment m => Text.ofString m.shown
  | v => display v

/-- `display`, unless an integer in the value is too long to be written. -/
def display? (v : Value) : Option Text := if tooLong v then none else some (display v)

/-- `shown`, unless an integer in the value is too long to be written. -/
def shown? (v : Value) : Option Text := if tooLong v then none else some (shown v)

/-- Why a value is not written out. -/
inductive Unwritable where
  | tooLong
  | tooDeep
  deriving DecidableEq, Repr

/-- How many values may be written inside each other. -/
def displayDepth : Nat := 988

mutual

/-- What keeps a value from being written out, the first thing met on the way
through it. `room` says how many values may be written inside each other; the
members of a set are gathered in a list first, which takes room as well. -/
def unwritable? : (room : Nat) → Value → Option Unwritable
  | 0, _ => some .tooDeep
  | _ + 1, int i => if digitLimit < Binary64.decimalLength i.natAbs then some .tooLong else none
  | room + 1, list xs => unwritableAll? room xs
  | room + 1, tuple xs => unwritableAll? room xs
  | room + 1, set xs =>
    if xs.isEmpty then none
    else if room = 0 then some .tooDeep
    else unwritableAll? (room - 1) xs
  | room + 1, mapping es => unwritableEntries? room es
  | _ + 1, _ => none

/-- What keeps the values of a list from being written out. -/
def unwritableAll? (room : Nat) : List Value → Option Unwritable
  | [] => none
  | x :: xs => (unwritable? room x).or (unwritableAll? room xs)

/-- What keeps the keys and values of a mapping from being written out. -/
def unwritableEntries? (room : Nat) : List (Value × Value) → Option Unwritable
  | [] => none
  | (k, v) :: es => ((unwritable? room k).or (unwritable? room v)).or (unwritableEntries? room es)

end

end Amend.Value
