/-
Amend.Review.Approval — deciding whether staged changes are written.

Where nothing is altered there is nothing to approve. Otherwise the changes
are approved unasked, or the user is asked: on a full screen if there is
one, else on the terminal. There the changes are printed once and the
question is put until it is answered with yes or no; the end of the input
means no.

  §1 Asking on a terminal.
  §2 Deciding.
-/
import Amend.Journal
import Amend.Review.Change
import Amend.Review.Screen
import Amend.Text.Blank
import Amend.Text.Lines

namespace Amend

/-! ## §1 Asking on a terminal -/

namespace Console

/-- The question. -/
def question : Text := "\nWrite these changes? [y/n] "

/-- What an answer means; an answer that is neither means nothing. -/
def meaning (answer : Text) : Option Bool :=
  let a := Text.toLower (Text.trim answer)
  if a = "y" ∨ a = "yes" then some true
  else if a = "n" ∨ a = "no" then some false
  else none

/-- Puts the question to lines of input: what was decided, how often it was
asked, and how many lines were read. -/
def ask : List Text → Bool × Nat × Nat
  | [] => (false, 1, 0)
  | l :: ls =>
    match meaning l with
    | some b => (b, 1, 1)
    | none =>
      let (b, asked, read) := ask ls
      (b, asked + 1, read + 1)

/-- What is decided about changes that alter something, and what is printed. -/
def review (changes : List Change) (input : List Text) : Bool × Text :=
  let (decided, asked, _) := ask input
  (decided, Change.printed changes ++ (List.replicate asked question).flatten)

end Console

/-! ## §2 Deciding -/

namespace Approval

/-- Who decides. -/
inductive Asking where
  /-- Nobody: everything is approved and its differences recorded. -/
  | unasked
  /-- The user, on a full screen. -/
  | screen (inputs : List Screen.Input)
  /-- The user, on the terminal, the screen having failed to start. -/
  | terminal (failure : Text) (input : Text)

/-- A decision, what was printed on the way to it, what was shown on the
screen, and what is recorded. -/
structure Decision where
  approved : Bool
  printed : Text := []
  shown : List Text := []
  records : List Record := []
  deriving Repr

/-- The record of a change approved unasked. -/
def unaskedRecord (c : Change) : Record :=
  ⟨.info, .review, "[Review] auto-approved " ++ c.summary ++ "\n" ++ c.difference⟩

/-- The record that the screen did not start. -/
def noScreenRecord (failure : Text) : Record :=
  ⟨.warning, .review, "[Review] Textual viewer unavailable: " ++ failure⟩

/-- Decides about changes. -/
def decide (changes : List Change) (asking : Asking) : Decision :=
  let staged := Change.staged changes
  if staged = [] then { approved := true }
  else
    match asking with
    | .unasked => { approved := true, records := staged.map unaskedRecord }
    | .screen inputs => { approved := Screen.decide inputs, shown := Screen.widgets staged }
    | .terminal failure input =>
      let (approved, printed) := Console.review staged (Text.streamLines input)
      { approved, printed, records := [noScreenRecord failure] }

end Approval

end Amend
