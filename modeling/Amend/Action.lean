/-
Amend.Action — programs as trees of the questions they ask.

An action is done, or asks something of its surroundings and goes on with
the answer. What a question means is not fixed here: `run` answers the
questions in any monad, so the same tree works on a store in memory, on a
model of a disk and on the machine. Since the tree is data, a property of
all its runs is proved by induction on it.
-/

universe u

namespace Amend

/-- A program with the answer type `α` that asks questions of kind `Q`. -/
inductive Action (Q : Type → Type) (α : Type) : Type 1 where
  | done (a : α)
  | ask {β : Type} (question : Q β) (next : β → Action Q α)

namespace Action

variable {Q : Type → Type} {α β : Type}

/-- Goes on with a second program once the first is done. -/
def bind : Action Q α → (α → Action Q β) → Action Q β
  | done a, f => f a
  | ask q next, f => ask q fun b => (next b).bind f

instance : Monad (Action Q) where
  pure := done
  bind := bind

/-- The program that asks one question and returns the answer. -/
def query (q : Q α) : Action Q α := ask q done

/-- Runs a program with its questions answered in a monad. -/
def run {m : Type → Type u} [Monad m] (answer : {γ : Type} → Q γ → m γ) : Action Q α → m α
  | done a => pure a
  | ask q next => answer q >>= fun b => (next b).run answer

theorem bind_assoc {γ : Type} (x : Action Q α) (f : α → Action Q β) (g : β → Action Q γ) :
    (x.bind f).bind g = x.bind fun a => (f a).bind g := by
  induction x with
  | done a => rfl
  | ask q next ih =>
    show ask q _ = ask q _
    congr 1
    funext b
    exact ih b

theorem bind_done (x : Action Q α) : x.bind done = x := by
  induction x with
  | done a => rfl
  | ask q next ih =>
    show ask q _ = ask q _
    congr 1
    funext b
    exact ih b

instance : LawfulMonad (Action Q) :=
  LawfulMonad.mk' (Action Q) (fun x => bind_done x) (fun _ _ => rfl) bind_assoc

end Action

end Amend
