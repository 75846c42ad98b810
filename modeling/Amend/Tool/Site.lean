/-
Amend.Tool.Site — surroundings as values.

A site holds everything a tool can reach: a file store, a disk for logs,
the records written so far and the time on the clock. On a `DiskSite` the
files are on that same disk.
-/
import Amend.Store.Disk
import Amend.Store.Memory
import Amend.Tool.Basic

namespace Amend

/-- A file store beside a disk for logs. -/
structure Site (σ : Type) where
  store : σ
  disk : Disk := {}
  records : List Record := []
  clock : Text := []
  deriving Repr

/-- A disk that holds both files and logs. -/
structure DiskSite where
  disk : Disk := {}
  records : List Record := []
  clock : Text := []
  deriving Repr

namespace Site

variable {σ α : Type}

/-- Runs a program on the store. -/
def onStore (x : StateM σ α) : StateM (Site σ) α := zoom store (fun s t => { s with store := t }) x

instance [FileStore (StateM σ)] : Surroundings (StateM (Site σ)) where
  read path := onStore (FileStore.read path)
  write path content := onStore (FileStore.write path content)
  has path := onStore (FileStore.has path)
  makeDirs path := onStore (FileStore.makeDirs path)
  journal r := modify fun s => { s with records := s.records ++ [r] }
  now := do return (← get).clock
  append path content :=
    zoom disk (fun s t => { s with disk := t }) (Disk.appendMaking path content).run

end Site

namespace DiskSite

variable {α : Type}

/-- Runs a program on the disk. -/
def onDisk (x : StateM Disk α) : StateM DiskSite α := zoom disk (fun s t => { s with disk := t }) x

instance : Surroundings (StateM DiskSite) where
  read path := onDisk (FileStore.read path)
  write path content := onDisk (FileStore.write path content)
  has path := onDisk (FileStore.has path)
  makeDirs path := onDisk (FileStore.makeDirs path)
  journal r := modify fun s => { s with records := s.records ++ [r] }
  now := do return (← get).clock
  append path content := onDisk (Disk.appendMaking path content).run

end DiskSite

end Amend
