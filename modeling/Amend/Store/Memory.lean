/-
Amend.Store.Memory — files held in memory.

Files and directories are kept by the normal form of their paths, so all
spellings of one path lead to the same file. Directories are only marks: a
file needs none around it.
-/
import Amend.Path
import Amend.Store.Basic
import Amend.Table

namespace Amend

/-- Files by normal path, and the directories that were made. -/
structure Memory where
  files : Table Text Bytes := []
  dirs : List Text := []
  deriving Repr

namespace Memory

/-- A store that holds the given files; of two spellings of a path the later
counts. -/
def ofFiles (files : List (Text × Bytes)) : Memory :=
  ⟨Table.ofList (files.map fun (p, b) => (Path.normalize p, b)), []⟩

/-- The content of a file. -/
def read (m : Memory) (path : Text) : Except FileError Bytes :=
  match m.files.get? (Path.normalize path) with
  | some b => .ok b
  | none => .error (.absent path)

/-- The store with a file's content put. -/
def write (m : Memory) (path : Text) (content : Bytes) : Memory :=
  { m with files := m.files.put (Path.normalize path) content }

/-- Whether there is a file or a directory. -/
def has (m : Memory) (path : Text) : Bool :=
  m.files.has (Path.normalize path) || m.dirs.contains (Path.normalize path)

/-- The store with a directory made; the empty path makes none. -/
def makeDirs (m : Memory) (path : Text) : Memory :=
  let key := Path.normalize path
  if path = [] ∨ key ∈ m.dirs then m else { m with dirs := m.dirs ++ [key] }

instance : FileStore (StateM Memory) where
  read path := do return (← get).read path
  write path content := do modify (·.write path content); return .ok ()
  has path := do return (← get).has path
  makeDirs path := do modify (·.makeDirs path); return .ok ()

end Memory

end Amend
