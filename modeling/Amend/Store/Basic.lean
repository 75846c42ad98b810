/-
Amend.Store.Basic — what the tools need of a file store.

A store is anything that reads, writes and finds files by path. It is given
as operations in a monad, so that one tool runs on a store in memory, on a
model of a disk, on staged changes over either, and on the machine.
-/
import Amend.Fault

universe u

namespace Amend

/-- The operations of a file store. -/
class FileStore (m : Type → Type u) where
  /-- The content of a file. -/
  read : (path : Text) → m (Except FileError Bytes)
  /-- Makes bytes the content of a file, which need not exist yet. -/
  write : (path : Text) → Bytes → m (Except FileError Unit)
  /-- Whether there is a file or directory. -/
  has : (path : Text) → m Bool
  /-- Makes a directory and those above it, unless they exist. -/
  makeDirs : (path : Text) → m (Except FileError Unit)

/-- Runs a program on a part of a state. -/
def zoom {σ τ α : Type} (get : σ → τ) (set : σ → τ → σ) (x : StateM τ α) : StateM σ α := do
  let s ← getThe σ
  let (a, t) := x.run (get s)
  MonadStateOf.set (set s t)
  return a

/-! ## Stores that refuse -/

/-- The operations of a store that refuse, each with a number and words. -/
structure Faults where
  read : Option (Int × Text) := none
  write : Option (Int × Text) := none
  makeDirs : Option (Int × Text) := none
  deriving Repr

/-- A store some of whose operations refuse before they do anything. -/
structure Faulty (σ : Type) where
  store : σ
  faults : Faults
  deriving Repr

namespace Faulty

variable {σ α : Type}

/-- Refuses if there is a fault, else goes on with the store. -/
def guarded (fault : Faults → Option (Int × Text)) (path : Text)
    (x : StateM σ (Except FileError α)) : StateM (Faulty σ) (Except FileError α) := do
  match fault (← get).faults with
  | some (number, words) => return .error (.system number words path none)
  | none => zoom Faulty.store (fun s t => { s with store := t }) x

instance [FileStore (StateM σ)] : FileStore (StateM (Faulty σ)) where
  read path := guarded Faults.read path (FileStore.read path)
  write path content := guarded Faults.write path (FileStore.write path content)
  has path := zoom Faulty.store (fun s t => { s with store := t }) (FileStore.has path)
  makeDirs path := guarded Faults.makeDirs path (FileStore.makeDirs path)

end Faulty

end Amend
