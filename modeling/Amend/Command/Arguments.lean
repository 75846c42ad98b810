/-
Amend.Command.Arguments — reading a list of arguments.

A word that begins with a dash names a switch, in full or by the start of
its name, unless it is a negative number or has a space in it; the value of
a switch is the next word or stands after an equals sign, where two dashes
on their own are no value. After two dashes that are a word no word names a
switch. Of the other words one is the subject;
where the subject is a command, the words after it belong to that.

  §1 What is understood.
  §2 Words.
  §3 Reading the words.
  §4 Reading a list.
-/
import Amend.Number.Decimal
import Amend.Table
import Amend.Text.Printable
import Amend.Text.Search

namespace Amend.Command

/-! ## §1 What is understood -/

/-- What a switch is for. -/
inductive Purpose where
  /-- It asks for help. -/
  | help
  /-- It says something by being there. -/
  | mark
  /-- It gives a text. -/
  | text
  /-- It gives an integer. -/
  | integer
  deriving DecidableEq, Repr

/-- A switch and its names. -/
structure Switch where
  names : List String
  purpose : Purpose
  deriving DecidableEq, Repr

/-- The names of a switch as messages give them. -/
def Switch.shown (s : Switch) : Text := Text.join "/" (s.names.map Text.ofString)

/-- What the words that name no switch are for. -/
inductive Subject where
  | nothing
  /-- One word, which must be there. -/
  | word (name : String)
  /-- One of some words, which must be there and takes all words after it. -/
  | command (name : String) (choices : List String)
  deriving Repr

/-- A list of arguments that is understood. -/
structure Form where
  program : Text
  switches : List Switch
  subject : Subject
  /-- Groups of switches, by name: exactly one of each must be given. -/
  groups : List (List String) := []

/-- Why a list of arguments leads to no command. -/
inductive Complaint where
  /-- It asks for help. -/
  | help (program : Text)
  | wrong (program : Text) (reason : Text)
  deriving DecidableEq, Repr

namespace Complaint

/-- Whether something is wrong. -/
def isWrong : Complaint → Bool
  | help _ => false
  | wrong .. => true

/-- A complaint in words. -/
def message : Complaint → Text
  | help program => "usage: " ++ program ++ " [options] ..."
  | wrong program reason => program ++ ": error: " ++ reason

end Complaint

/-- The switch that every list understands. -/
def helpSwitch : Switch := ⟨["-h", "--help"], .help⟩

namespace Form

/-- All names of switches, with their switches. -/
def names (f : Form) : List (Text × Switch) :=
  (helpSwitch :: f.switches).flatMap fun s => s.names.map fun n => (Text.ofString n, s)

/-- The switch of a name. -/
def find? (f : Form) (name : Text) : Option Switch :=
  (f.names.find? fun e => e.1 == name).map Prod.snd

/-- Fails for a reason. -/
def complain {α : Type} (f : Form) (reason : Text) : Except Complaint α :=
  .error (.wrong f.program reason)

/-- Fails because of a switch. -/
def complainOf {α : Type} (f : Form) (s : Switch) (reason : Text) : Except Complaint α :=
  f.complain ("argument " ++ s.shown ++ ": " ++ reason)

/-! ## §2 Words -/

end Form

/-- A switch as a word names it. -/
structure Mention where
  switch : Switch
  /-- Whether it is named by one dash and a letter. -/
  short : Bool
  /-- What the word gives it, after an equals sign or after the letter. -/
  attached : Option Text
  deriving Repr

/-- A word of a list of arguments. -/
inductive Word where
  | plain (t : Text)
  /-- Two dashes on their own, the first such word. -/
  | divider
  /-- A word that has the form of a switch; none if there is no such switch. -/
  | switch (t : Text) (m : Option Mention)
  deriving Repr

/-- A word as it was given. -/
def Word.text : Word → Text
  | plain t | switch t _ => t
  | divider => "--"

/-- The parts of a word before and after its first equals sign. -/
def cutAtEquals (t : Text) : Text × Option Text :=
  match t.dropWhile (!·.is '=') with
  | [] => (t, none)
  | _ :: r => (t.takeWhile (!·.is '='), some r)

/-- Whether a word is a negative number, in digits of any script. -/
def isNegativeNumber (t : Text) : Bool :=
  let t := if t.getLast? = some lf then t.dropLast else t
  let digits (t : Text) : Bool := t.all fun s => s.digit?.isSome
  match t with
  | .char '-' :: r =>
    let whole := r.takeWhile fun s => s.digit?.isSome
    match r.drop whole.length with
    | [] => !whole.isEmpty
    | .char '.' :: q => !q.isEmpty && digits q
    | _ => false
  | _ => false

namespace Form

/-- The switches that a word may mean by the start of a name. -/
def candidates (f : Form) (t : Text) : List (Text × Mention) :=
  match t with
  | .char '-' :: .char '-' :: _ =>
    let (name, value) := cutAtEquals t
    (f.names.filter fun e => name.isPrefixOf e.1).map fun (n, s) =>
      (n, ⟨s, false, value⟩)
  | a :: b :: r =>
    f.names.filterMap fun (n, s) =>
      if n == [a, b] then some (n, ⟨s, true, some r⟩)
      else if t.isPrefixOf n then some (n, ⟨s, false, none⟩)
      else none
  | _ => []

/-- What a word is. -/
def classify (f : Form) (t : Text) : Except Complaint Word :=
  let short (n : Text) : Bool := !("--" : Text).isPrefixOf n
  match t with
  | .char '-' :: _ :: _ =>
    match f.find? t with
    | some s => .ok (.switch t (some ⟨s, short t, none⟩))
    | none =>
      let (name, value) := cutAtEquals t
      match f.find? name, value with
      | some s, some v => .ok (.switch t (some ⟨s, short name, some v⟩))
      | _, _ =>
        match f.candidates t with
        | [(_, m)] => .ok (.switch t (some m))
        | [] =>
          if isNegativeNumber t || t.any (·.is ' ') then .ok (.plain t)
          else .ok (.switch t none)
        | several =>
          f.complain ("ambiguous option: " ++ t ++ " could match " ++
            Text.join ", " (several.map Prod.fst))
  | _ => .ok (.plain t)

/-- What the words of a list are. -/
def words (f : Form) : List Text → Except Complaint (List Word)
  | [] => .ok []
  | t :: ts =>
    if t == ("--" : Text) then .ok (.divider :: ts.map .plain)
    else do return (← f.classify t) :: (← words f ts)

end Form

/-! ## §3 Reading the words -/

/-- What was read from a list. -/
structure Reading where
  /-- What the switches gave, by their first names; a mark gives nothing. -/
  given : Table String (Option Text) := []
  /-- The subject, and the words after a command. -/
  subject : Option (Text × List Text) := none
  /-- Words that stand for nothing. -/
  extras : List Text := []
  deriving Repr

namespace Reading

/-- Whether a switch was given. -/
def has (r : Reading) (name : String) : Bool := r.given.has name

/-- The text that a switch gave. -/
def text? (r : Reading) (name : String) : Option Text := (r.given.get? name).join

/-- The integer that a switch gave. -/
def integer? (r : Reading) (name : String) : Option Int :=
  (r.text? name).bind fun t => (Decimal.readInt t).toOption

/-- Adds a word that stands for nothing. -/
def extra (r : Reading) (t : Text) : Reading := { r with extras := r.extras ++ [t] }

end Reading

namespace Form

/-- The first name of a switch. -/
def key (s : Switch) : String := s.names.headD ""

/-- Takes what a switch gives. Of a group only one switch may be given. -/
def take (f : Form) (s : Switch) (value : Option Text) (r : Reading) : Except Complaint Reading := do
  if s.purpose = .help then throw (.help f.program)
  match value with
  | some t =>
    if s.purpose = .integer && (Decimal.readInt t).toOption.isNone then
      f.complainOf s ("invalid int value: " ++ Text.quoted t)
  | none => pure ()
  let rivals := (f.groups.filter (·.contains (key s))).flatten.filter (· ≠ key s)
  match rivals.find? r.has with
  | some other => f.complainOf s ("not allowed with argument " ++ Text.ofString other)
  | none => return { r with given := r.given.put (key s) value }

/-- What is wrong with the letters after a short switch, each of which must
name another: those from the first on that names none. -/
def lettersFault? (f : Form) : Text → Option Text
  | [] => none
  | c :: r => if (f.find? [.char '-', c]).isSome then lettersFault? f r else some (c :: r)

/-- Takes a switch that needs no value from the word it is named in. -/
def takeMark (f : Form) (m : Mention) (r : Reading) : Except Complaint Reading :=
  let fault : Option Text :=
    match m.attached with
    | none => none
    | some v => if m.short && v ≠ [] then f.lettersFault? v else some v
  match fault with
  | some v => f.complainOf m.switch ("ignored explicit argument " ++ Text.quoted v)
  | none => f.take m.switch none r

/-- Whether a switch needs a value. -/
def needsValue (s : Switch) : Bool := s.purpose = .text || s.purpose = .integer

/-- Takes the subject; a command must be one of the choices. -/
def takeSubject (f : Form) (t : Text) (rest : List Text) (r : Reading) : Except Complaint Reading :=
  match f.subject with
  | .command name choices =>
    if choices.any fun c => Text.ofString c == t then .ok { r with subject := some (t, rest) }
    else
      f.complain ("argument " ++ Text.ofString name ++ ": invalid choice: " ++ Text.quoted t ++
        " (choose from " ++ Text.join ", " (choices.map fun c => Text.quoted (Text.ofString c)) ++ ")")
  | _ => .ok { r with subject := some (t, []) }

/-- Reads words from left to right. -/
def readWords (f : Form) : List Word → Reading → Except Complaint Reading
  | [], r => .ok r
  | .switch t none :: ws, r => readWords f ws (r.extra t)
  | .switch _ (some m) :: ws, r =>
    if !needsValue m.switch then do readWords f ws (← f.takeMark m r)
    else
      match m.attached, ws with
      | some v, ws =>
        do readWords f ws (← f.take m.switch (if v == ("--" : Text) then none else some v) r)
      | none, .plain v :: ws => do readWords f ws (← f.take m.switch (some v) r)
      | none, _ => f.complainOf m.switch "expected one argument"
  | .plain t :: ws, r =>
    match r.subject, f.subject with
    | none, .command .. => f.takeSubject t (ws.map Word.text) r
    | none, .word _ =>
      match ws with
      | .divider :: ws => do readWords f ws (← f.takeSubject t [] r)
      | ws => do readWords f ws (← f.takeSubject t [] r)
    | _, _ => readWords f ws (r.extra t)
  | .divider :: ws, r =>
    match r.subject, f.subject, ws with
    | none, .command .., .plain t :: ws => f.takeSubject "--" (t :: ws.map Word.text) r
    | none, .word _, .plain t :: ws => do readWords f ws (← f.takeSubject t [] r)
    | _, _, ws => readWords f ws (r.extra "--")

/-! ## §4 Reading a list -/

/-- What must be given and is not. -/
def missing? (f : Form) (r : Reading) : Option Text :=
  let needed : List Text :=
    match r.subject, f.subject with
    | none, .word name | none, .command name _ => [Text.ofString name]
    | _, _ => []
  if needed ≠ [] then
    some ("the following arguments are required: " ++ Text.join ", " needed)
  else
    (f.groups.find? fun g => !g.any r.has).map fun g =>
      "one of the arguments " ++ Text.join " " (g.map Text.ofString) ++ " is required"

/-- Reads a list of arguments. -/
def read (f : Form) (arguments : List Text) : Except Complaint Reading := do
  let r ← f.readWords (← f.words arguments) {}
  match f.missing? r with
  | some reason => f.complain reason
  | none => return r

end Form

end Amend.Command
