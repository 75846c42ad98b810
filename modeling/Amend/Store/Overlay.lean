/-
Amend.Store.Overlay — changes staged over a store.

Writes are held back until they are committed; reads see them, and fall
through to the store beneath for every other path. A pending path is known
by its spelling. Committing makes the directories asked for, then writes
the files in the order they were first written; if the store refuses, all
that was staged is still held.
-/
import Amend.Journal
import Amend.Store.Basic
import Amend.Table

universe u

namespace Amend

/-- Files to be written and directories to be made, in the order they came. -/
structure Overlay where
  pending : Table Text Bytes := []
  dirs : List Text := []
  deriving Repr

namespace Overlay

variable {m : Type → Type u} [Monad m] [FileStore m]

/-- Whether nothing waits to be written. -/
def isEmpty (o : Overlay) : Bool := o.pending.isEmpty

instance : FileStore (StateT Overlay m) where
  read path := do
    match (← get).pending.get? path with
    | some b => return .ok b
    | none => StateT.lift (FileStore.read path)
  write path content := do
    modify fun o => { o with pending := o.pending.put path content }
    return .ok ()
  has path := do
    if (← get).pending.has path then return true
    else StateT.lift (FileStore.has path)
  makeDirs path := do
    modify fun o => { o with dirs := o.dirs ++ [path] }
    return .ok ()

/-- The content of a file beneath the staged changes, if it is there. -/
def beneath (path : Text) : m (Except FileError (Option Bytes)) := do
  if ← FileStore.has path then return (← FileStore.read path).map some
  else return .ok none

/-- Makes directories until one is refused. -/
def makeAll : List Text → m (Except FileError Unit)
  | [] => return .ok ()
  | d :: ds => do
    match ← FileStore.makeDirs d with
    | .ok () => makeAll ds
    | .error e => return .error e

/-- Writes files until one is refused. -/
def writeAll : Table Text Bytes → m (Except FileError Unit)
  | [] => return .ok ()
  | (path, content) :: fs => do
    match ← FileStore.write path content with
    | .ok () => writeAll fs
    | .error e => return .error e

/-- Carries the staged changes out; the paths written are returned. -/
def commit : StateT Overlay m (Except FileError (List Text)) := do
  let o ← get
  match ← StateT.lift (makeAll o.dirs) with
  | .error e => return .error e
  | .ok () =>
    match ← StateT.lift (writeAll o.pending) with
    | .error e => return .error e
    | .ok () =>
      set ({} : Overlay)
      return .ok o.pending.keys

/-- Forgets the staged changes. -/
def discard : StateT Overlay m Unit := set ({} : Overlay)

/-- What a commit of so many files is recorded as. -/
def commitRecord (count : Nat) : Record :=
  ⟨.debug, .stores, "[DryRun] Committed " ++ Text.ofNat count ++ " file(s)"⟩

end Overlay

end Amend
