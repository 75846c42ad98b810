/-
Amend.Yaml.Tag — the types of the nodes of a document.

A tag is a name; the names below are the ones that stand for a type of
value. A node without a tag has the type of its form, and a plain scalar has
the type that the first rule it satisfies gives it.

  §1 Tags and their names.
  §2 The shapes of plain scalars.
-/
import Amend.Yaml.Source

namespace Amend.Yaml

/-! ## §1 Tags and their names -/

/-- The type of a node. `other` is any that has no values here. -/
inductive Tag where
  | null
  | bool
  | int
  | float
  | binary
  | timestamp
  | ordered
  | pairs
  | set
  | text
  | sequence
  | mapping
  | merge
  | value
  | other
  deriving DecidableEq, Repr

namespace Tag

/-- What the names of the standard types begin with. -/
def standard : List Char := "tag:yaml.org,2002:".toList

/-- The standard types by the ends of their names. -/
def names : List (String × Tag) :=
  [("null", null), ("bool", bool), ("int", int), ("float", float), ("binary", binary),
   ("timestamp", timestamp), ("omap", ordered), ("pairs", pairs), ("set", set), ("str", text),
   ("seq", sequence), ("map", mapping), ("merge", merge), ("value", value)]

/-- The type of a name. -/
def ofName (name : List Char) : Tag :=
  if standard.isPrefixOf name then
    let rest := name.drop standard.length
    ((names.find? fun e => e.1.toList == rest).map Prod.snd).getD other
  else other

end Tag

/-! ## §2 The shapes of plain scalars -/

namespace Shape

/-- A shape takes the start of some characters, in every way it can, and
gives what is left after each. -/
abbrev Taker := List Char → List (List Char)

/-- One character that satisfies `p`. -/
def one (p : Char → Bool) : Taker
  | c :: r => if p c then [r] else []
  | [] => []

/-- The character `c`. -/
def sign (c : Char) : Taker := one (· == c)

/-- Any number of characters that satisfy `p`. -/
def many (p : Char → Bool) : Taker
  | [] => [[]]
  | c :: r => if p c then many p r ++ [c :: r] else [c :: r]

/-- One shape after the other. -/
def both (a b : Taker) : Taker := fun cs => (a cs).flatMap b

/-- Shapes one after the other. -/
def all : List Taker → Taker
  | [] => fun cs => [cs]
  | a :: as => both a (all as)

/-- A shape, or nothing. -/
def option (a : Taker) : Taker := fun cs => a cs ++ [cs]

/-- A shape any number of times; `fuel` bounds it. -/
def repeated (a : Taker) : (fuel : Nat) → Taker
  | 0 => fun cs => [cs]
  | fuel + 1 => fun cs => (a cs).flatMap (repeated a fuel) ++ [cs]

/-- Whether the shape takes all of some characters. -/
def fits (a : Taker) (cs : List Char) : Bool := (a cs).any List.isEmpty

/-- A digit. -/
def isDigit (c : Char) : Bool := c.isDigit

/-- A digit or an underscore. -/
def isLoose (c : Char) : Bool := c.isDigit || c == '_'

/-- A plus or minus sign, if there is one. -/
def polarity : Taker := option (one fun c => c == '+' || c == '-')

/-- One or two digits, the first of two at most five, after a colon. -/
def sixtieth : Taker :=
  all [sign ':', option (one fun c => '0' ≤ c && c ≤ '5'), one isDigit]

/-- Parts of a number to the base sixty, of which there is one at least. -/
def sixtieths : Taker := fun cs => both sixtieth (repeated sixtieth cs.length) cs

/-- A number without a fraction: to the base two, eight, ten, sixteen or sixty. -/
def isInt (cs : List Char) : Bool :=
  let oct (c : Char) : Bool := ('0' ≤ c && c ≤ '7') || c == '_'
  let hex (c : Char) : Bool := c.isDigit || ('a' ≤ c && c ≤ 'f') || ('A' ≤ c && c ≤ 'F') || c == '_'
  let bin (c : Char) : Bool := c == '0' || c == '1' || c == '_'
  let lead : Taker := one fun c => '1' ≤ c && c ≤ '9'
  [all [polarity, sign '0', sign 'b', one bin, many bin],
   all [polarity, sign '0', one oct, many oct],
   all [polarity, sign '0'],
   all [polarity, lead, many isLoose],
   all [polarity, sign '0', sign 'x', one hex, many hex],
   all [polarity, lead, many isLoose, sixtieths]].any fun a => fits a cs

/-- An exponent, which needs a sign. -/
def exponent : Taker :=
  option (all [one fun c => c == 'e' || c == 'E', one fun c => c == '+' || c == '-', one isDigit,
    many isDigit])

/-- A number with a point, or one of the words for what is no number. -/
def isFloat (cs : List Char) : Bool :=
  let words : List String :=
    [".inf", ".Inf", ".INF", "+.inf", "+.Inf", "+.INF", "-.inf", "-.Inf", "-.INF", ".nan", ".NaN",
     ".NAN"]
  words.any (·.toList == cs) ||
  [all [polarity, one isDigit, many isLoose, sign '.', many isLoose, exponent],
   all [sign '.', one isDigit, many isLoose, exponent],
   all [polarity, one isDigit, many isLoose, sixtieths, sign '.', many isLoose]].any
     fun a => fits a cs

/-- A date, or a date and a time of day. -/
def isTimestamp (cs : List Char) : Bool :=
  let d := one isDigit
  let short : Taker := both d (option d)
  let blanks : Taker := many isBlank
  let zone : Taker := fun r =>
    sign 'Z' r ++ all [one fun c => c == '+' || c == '-', short, option (all [sign ':', d, d])] r
  [all [d, d, d, d, sign '-', d, d, sign '-', d, d],
   all [d, d, d, d, sign '-', short, sign '-', short,
     fun r => one (fun c => c == 'T' || c == 't') r ++ both (one isBlank) blanks r,
     short, sign ':', d, d, sign ':', d, d, option (both (sign '.') (many isDigit)),
     option (both blanks zone)]].any fun a => fits a cs

/-- The words for truth values. -/
def truthWords : List (String × Bool) :=
  [("yes", true), ("no", false), ("true", true), ("false", false), ("on", true), ("off", false)]

/-- Whether the characters are a word in small letters, in capitals, or with
a capital first letter. -/
def isCasing (word : String) (cs : List Char) : Bool :=
  let w := word.toList
  cs == w || cs == w.map Char.toUpper ||
    cs == (match w with | c :: r => c.toUpper :: r | [] => [])

end Shape

/-- The type of a plain scalar. One line feed at its end does not count; a
lone sign of a tag, an anchor or an alias has a type without values. -/
def Tag.ofPlain (cs : List Char) : Tag :=
  let cs := if cs.length > 1 && cs.getLast? == some '\n' then cs.dropLast else cs
  if Shape.truthWords.any fun w => Shape.isCasing w.1 cs then .bool
  else if Shape.isFloat cs then .float
  else if Shape.isInt cs then .int
  else if cs == "<<".toList then .merge
  else if cs.isEmpty || cs == ['~'] || Shape.isCasing "null" cs then .null
  else if Shape.isTimestamp cs then .timestamp
  else if cs == ['='] then .value
  else if cs == ['!'] || cs == ['&'] || cs == ['*'] then .other
  else .text

end Amend.Yaml
