/-
Amend.Review.Screen — asking on a full screen.

The screen shows a summary, then each change under its title, and two
buttons. Letters decide at once; the keyboard also moves a focus over the
list and the two buttons. A list of commands can be called up, which takes
all keys until it is left. Closing the screen without a decision means no.
-/
import Amend.Review.Change

namespace Amend.Screen

/-! ## §1 What is shown -/

/-- The sum of all changes in one line. -/
def headline (changes : List Change) : Text :=
  let counts := changes.map Change.lineCounts
  let added := counts.foldl (fun n c => n + c.1) 0
  let removed := counts.foldl (fun n c => n + c.2) 0
  Text.ofNat changes.length ++ " file(s) staged  +" ++ Text.ofNat added ++
    " -" ++ Text.ofNat removed

/-- A change's title and body. -/
def panels (c : Change) : List Text :=
  [Change.escapeMarkup c.summary,
   if c.difference = [] then Change.escapeMarkup c.new else Change.marked c.difference]

/-- The texts shown, in order. -/
def widgets (changes : List Change) : List Text := headline changes :: changes.flatMap panels

/-! ## §2 What is decided -/

/-- What has the focus. -/
inductive Focus where
  | changes
  | write
  | discard
  deriving DecidableEq, Repr

/-- What the user does. -/
inductive Input where
  | yes
  | no
  | escape
  | next
  | previous
  | press
  | clickWrite
  | clickDiscard
  | commands
  | quit
  | other
  deriving DecidableEq, Repr

/-- Where the focus goes next. -/
def Focus.next : Focus → Focus
  | changes => write
  | write => discard
  | discard => changes

/-- Where the focus was before. -/
def Focus.previous : Focus → Focus
  | changes => discard
  | write => changes
  | discard => write

mutual

/-- The decision that inputs lead to, the focus being given. -/
def decideFrom : Focus → List Input → Bool
  | _, [] => false
  | f, i :: is =>
    match i with
    | .yes | .clickWrite => true
    | .no | .escape | .clickDiscard | .quit => false
    | .next => decideFrom f.next is
    | .previous => decideFrom f.previous is
    | .press =>
      match f with
      | .changes => decideFrom f is
      | .write => true
      | .discard => false
    | .commands => decideBehind f is
    | .other => decideFrom f is

/-- The decision that inputs lead to while the list of commands is open; it
is left by escape, and the screen behind it can still be quit. -/
def decideBehind : Focus → List Input → Bool
  | _, [] => false
  | f, i :: is =>
    match i with
    | .escape => decideFrom f is
    | .quit => false
    | _ => decideBehind f is

end

/-- The decision that inputs lead to. -/
def decide (inputs : List Input) : Bool := decideFrom .changes inputs

/-- The input that a key, or a click on a named button, is. -/
def inputOf (name : Text) : Input :=
  if name = "y" then .yes
  else if name = "n" then .no
  else if name = "escape" then .escape
  else if name = "tab" then .next
  else if name = "shift+tab" then .previous
  else if name = "enter" then .press
  else if name = "#write" then .clickWrite
  else if name = "#discard" then .clickDiscard
  else if name = "ctrl+p" then .commands
  else if name = "ctrl+q" then .quit
  else .other

end Amend.Screen
