/-
Amend.Value.Basic — the values that settings, plans and requests are made of.

A value comes from a request, a settings file, a plan or a log, so its kind
is only known when it is looked at. Numbers of different kinds that are
equal as numbers, and truth values that stand for zero or one, are the same
value; a mapping has one entry for a key in that sense.

  §1 The type, kinds and truth.
  §2 Sameness and order.
  §3 Mappings.
-/
import Amend.Number.Binary64
import Amend.Text.Utf8
import Amend.Value.Date

namespace Amend

/-! ## §1 Values -/

/-- A value whose kind is known only when it is looked at. `recurrence`
stands for a list or mapping met again inside itself. -/
inductive Value where
  | null
  | bool (b : Bool)
  | int (i : Int)
  | float (x : Binary64)
  | text (t : Text)
  | bytes (bs : Bytes)
  | date (d : Date)
  | moment (m : Moment)
  | list (xs : List Value)
  | tuple (xs : List Value)
  | set (xs : List Value)
  | mapping (entries : List (Value × Value))
  | recurrence (ofMapping : Bool)
  deriving Repr, Inhabited

namespace Value

/-- The name of a value's kind, as messages give it. -/
def kind : Value → String
  | null => "NoneType"
  | bool _ => "bool"
  | int _ => "int"
  | float _ => "float"
  | text _ => "str"
  | bytes _ => "bytes"
  | date _ => "date"
  | moment _ => "datetime"
  | list _ => "list"
  | tuple _ => "tuple"
  | set _ => "set"
  | mapping _ => "dict"
  | recurrence ofMapping => if ofMapping then "dict" else "list"

/-- Whether a value counts as true: not null, zero or empty. -/
def truthy : Value → Bool
  | null => false
  | bool b => b
  | int i => i != 0
  | float x => !x.isZero
  | text t => !t.isEmpty
  | bytes bs => !bs.isEmpty
  | date _ | moment _ => true
  | list xs | tuple xs | set xs => !xs.isEmpty
  | mapping es => !es.isEmpty
  | recurrence _ => true

/-- The value of a string. -/
def ofString (s : String) : Value := text (Text.ofString s)

/-! ## §2 Sameness and order -/

/-- A value as a number, if it is one; truth values count as zero and one. -/
def number? : Value → Option (Int ⊕ Binary64)
  | bool b => some (.inl (if b then 1 else 0))
  | int i => some (.inl i)
  | float x => some (.inr x)
  | _ => none

/-- The order of two numbers; none if one of them is no number. -/
def compareNumbers : Int ⊕ Binary64 → Int ⊕ Binary64 → Option Ordering
  | .inl i, .inl j => some (compare i j)
  | .inr x, .inl j => x.compareInt? j
  | .inl i, .inr y => (y.compareInt? i).map Ordering.swap
  | .inr x, .inr y => x.compare? y

/-- Whether two numbers are the same one. -/
def sameNumber (a b : Int ⊕ Binary64) : Bool :=
  match a, b with
  | .inr .nan, .inr .nan => true
  | a, b => compareNumbers a b == some .eq

mutual

/-- Whether two values are the same, numbers compared as numbers. -/
def same : Value → Value → Bool
  | null, null => true
  | bool a, y => scalarSame (.inl (if a then 1 else 0)) y
  | int i, y => scalarSame (.inl i) y
  | float x, y => scalarSame (.inr x) y
  | text s, text t => s == t
  | bytes a, bytes b => a == b
  | date a, date b => a == b
  | moment a, moment b => a.same b
  | list xs, list ys => sameAll xs ys
  | tuple xs, tuple ys => sameAll xs ys
  | set xs, set ys => xs.length == ys.length && allFound xs ys
  | mapping a, mapping b => a.length == b.length && allEntriesFound a b
  | recurrence a, recurrence b => a == b
  | _, _ => false
where
  /-- A number and a value that may be one. -/
  scalarSame (n : Int ⊕ Binary64) (y : Value) : Bool :=
    match number? y with
    | some m => sameNumber n m
    | none => false

/-- Whether two lists have the same values in the same places. -/
def sameAll : List Value → List Value → Bool
  | [], [] => true
  | x :: xs, y :: ys => same x y && sameAll xs ys
  | _, _ => false

/-- Whether each value occurs in a collection. -/
def allFound : List Value → List Value → Bool
  | [], _ => true
  | x :: xs, ys => ys.any (same x) && allFound xs ys

/-- Whether each entry occurs in a mapping. -/
def allEntriesFound : List (Value × Value) → List (Value × Value) → Bool
  | [], _ => true
  | (k, v) :: es, fs => fs.any (fun f => same k f.1 && same v f.2) && allEntriesFound es fs

end

/-- Two values that have no order, by their kinds. -/
structure Unordered where
  left : String
  right : String
  deriving Repr

mutual

/-- Whether a value comes before another: numbers by size, texts by symbols,
lists at the first place where they differ. Other pairs have no order. -/
def less : Value → Value → Except Unordered Bool
  | text s, text t => .ok (s.le t && s != t)
  | list xs, list ys => lessAll xs ys
  | tuple xs, tuple ys => lessAll xs ys
  | x, y =>
    match number? x, number? y with
    | some a, some b => .ok (compareNumbers a b == some .lt)
    | _, _ => .error ⟨x.kind, y.kind⟩

/-- The order of two lists. -/
def lessAll : List Value → List Value → Except Unordered Bool
  | _, [] => .ok false
  | [], _ :: _ => .ok true
  | x :: xs, y :: ys => if same x y then lessAll xs ys else less x y

end

mutual

/-- Whether a value may be the key of an entry: nothing in it can change. -/
def isKey : Value → Bool
  | list _ | set _ | mapping _ | recurrence _ => false
  | tuple xs => allKeys xs
  | _ => true

/-- Whether all values of a list may be keys. -/
def allKeys : List Value → Bool
  | [] => true
  | x :: xs => isKey x && allKeys xs

end

/-! ## §3 Mappings -/

/-- The value at a key. -/
def find? (entries : List (Value × Value)) (key : Value) : Option Value :=
  (entries.find? fun e => same e.1 key).map Prod.snd

/-- The value at a key that is a string. -/
def field? (entries : List (Value × Value)) (key : String) : Option Value :=
  find? entries (ofString key)

/-- The entries with a value put at a key: in place if the key is there, at
the end if it is new. -/
def put (entries : List (Value × Value)) (key value : Value) : List (Value × Value) :=
  if entries.any fun e => same e.1 key then
    entries.map fun e => if same e.1 key then (e.1, value) else e
  else entries ++ [(key, value)]

/-- The mapping with string keys in the given order. -/
def ofFields (fields : List (String × Value)) : Value :=
  mapping (fields.map fun (k, v) => (ofString k, v))

end Value

end Amend
