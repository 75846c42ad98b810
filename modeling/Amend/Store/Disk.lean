/-
Amend.Store.Disk — a disk as a value.

A disk is a set of files and directories, each at a list of names from the
root, and a working directory. Paths are walked name by name, and every
operation refuses for the reason a POSIX system gives. There are no links;
new files may be written by their owner and read by all. Everything belongs
to the one user there is, who may do what the owner's bits allow.

  §1 Nodes and disks.
  §2 Walking a path.
  §3 Looking.
  §4 Changing.
  §5 Replacing a file as a whole.
  §6 Making directories.
-/
import Amend.Path
import Amend.Store.Basic
import Amend.Table

namespace Amend

/-! ## §1 Disks -/

/-- What stands at a place of a disk, with its permission bits. -/
inductive Node where
  | file (content : Bytes) (mode : Nat)
  | directory (mode : Nat)
  deriving DecidableEq, Repr

/-- The permission bits of a node. -/
def Node.mode : Node → Nat
  | file _ m => m
  | directory m => m

/-- The node with other permission bits. -/
def Node.withMode : Node → Nat → Node
  | file c _, m => file c m
  | directory _, m => directory m

/-- What the owner's permission bits allow. -/
inductive Permission where
  | read
  | write
  | search
  deriving DecidableEq, Repr

/-- The permission bit of the owner. -/
def Permission.bit : Permission → Nat
  | read => 0o400
  | write => 0o200
  | search => 0o100

/-- Whether the owner may do something. -/
def Node.allows (n : Node) (p : Permission) : Bool := n.mode &&& p.bit != 0

/-- The permission bits of a new file. -/
def fileMode : Nat := 0o644

/-- The permission bits of a new directory. -/
def directoryMode : Nat := 0o755

/-- The names from the root to a place; the root itself has none. -/
abbrev Place := List Text

/-- Files and directories by place, and the directory relative paths start
from. The root is always there. -/
structure Disk where
  nodes : Table Place Node := []
  workingDirectory : Place := []
  deriving Repr

/-- Why a path does not lead where it should. -/
inductive Obstacle where
  | noEntry
  | notDirectory
  | isDirectory
  | taken
  | tooLong
  | busy
  | denied
  /-- No system has the path at all. -/
  | invalid (e : FileError)
  deriving DecidableEq, Repr

/-- The file error an obstacle causes for a path. -/
def Obstacle.at (path : Text) : Obstacle → FileError
  | noEntry => .noEntry path
  | notDirectory => .noDirectory path
  | isDirectory => .directory path
  | taken => .fileExists path
  | tooLong => .nameTooLong path
  | busy => .system 16 "Device or resource busy" path none
  | denied => .denied path
  | invalid e => e

namespace Disk

/-- What stands at a place. -/
def node? (d : Disk) (place : Place) : Option Node :=
  if place = [] then some (.directory directoryMode) else d.nodes.get? place

/-- Whether the user may do something with what stands at a place. -/
def allows (d : Disk) (place : Place) (p : Permission) : Bool :=
  ((d.node? place).map (·.allows p)).getD false

/-- Whether the user may make, rename and remove what stands at a place. -/
def allowsEntry (d : Disk) (place : Place) : Bool :=
  d.allows place.dropLast .write && d.allows place.dropLast .search

/-- The disk with a node put at a place. -/
def putNode (d : Disk) (place : Place) (n : Node) : Disk := { d with nodes := d.nodes.put place n }

/-- The disk without the node at a place. -/
def removeNode (d : Disk) (place : Place) : Disk := { d with nodes := d.nodes.remove place }

/-- The working directory as a path. -/
def workingPath (d : Disk) : Text := Path.slash :: Text.join [Path.slash] d.workingDirectory

/-! ## §2 Walking a path -/

/-- Where a path leads: the place and what stands there, whether the path
ends in a slash, and whether its last name is that of an entry at all. -/
structure Destination where
  place : Place
  node : Option Node
  slashed : Bool
  named : Bool
  deriving Repr

/-- How many bytes a name takes that has any. -/
def byteLength (t : Text) : Nat := (Utf8.encode t).length

/-- The most bytes in a name. -/
def nameLimit : Nat := 255

/-- The most bytes in a path. -/
def pathLimit : Nat := 4095

/-- Follows names from a directory, each directory on the way being one that
may be searched; the answer is the last place and whether an entry is named
there. -/
def walk (d : Disk) : (current : Place) → List Text → Except Obstacle (Place × Bool)
  | current, [] => .ok (current, false)
  | current, n :: ns =>
    if !d.allows current .search then .error .denied
    else if n = Path.here then walk d current ns
    else if n = Path.above then walk d current.dropLast ns
    else if nameLimit < byteLength n then .error .tooLong
    else
      let next := current ++ [n]
      if ns = [] then .ok (next, true)
      else
        match d.node? next with
        | none => .error .noEntry
        | some (.file ..) => .error .notDirectory
        | some (.directory _) => walk d next ns

/-- Where a path leads. -/
def find (d : Disk) (path : Text) : Except Obstacle Destination :=
  match FileError.ofPath? path with
  | some e => .error (.invalid e)
  | none =>
    if path = [] then .error .noEntry
    else if pathLimit < byteLength path then .error .tooLong
    else
      let start := if Path.isAbsolute path then [] else d.workingDirectory
      (d.walk start ((Path.names path).filter (· ≠ []))).map fun (place, named) =>
        ⟨place, d.node? place, path.getLast? = some Path.slash, named⟩

/-! ## §3 Looking -/

/-- What stands where a path leads. A path with a slash at its end must lead
to a directory. -/
def stat (d : Disk) (path : Text) : Except Obstacle Node := do
  let t ← d.find path
  match t.node with
  | none => throw .noEntry
  | some (.file c m) => if t.slashed then throw .notDirectory else return .file c m
  | some n => return n

/-- Whether a path leads anywhere. -/
def has (d : Disk) (path : Text) : Bool := (d.stat path).toOption.isSome

/-- Whether a path leads to a file. -/
def isFile (d : Disk) (path : Text) : Bool :=
  match d.stat path with
  | .ok (.file ..) => true
  | _ => false

/-- Whether a path leads to a directory. -/
def isDirectory (d : Disk) (path : Text) : Bool :=
  match d.stat path with
  | .ok (.directory _) => true
  | _ => false

/-- The content of a file. -/
def read (d : Disk) (path : Text) : Except FileError Bytes :=
  match d.stat path with
  | .error o => .error (o.at path)
  | .ok n =>
    if !n.allows .read then .error (Obstacle.denied.at path)
    else
      match n with
      | .file c _ => .ok c
      | .directory _ => .error (Obstacle.isDirectory.at path)

/-! ## §4 Changing -/

/-- Operations that may change a disk and may refuse; what was changed
before a refusal stays. -/
abbrev Change := ExceptT FileError (StateM Disk)

/-- Lets an operation go on, or refuses it for a path. -/
def reach {α : Type} (path : Text) (r : Except Obstacle α) : Change α :=
  match r with
  | .ok a => return a
  | .error o => throw (o.at path)

/-- Refuses an operation for a path that the user may not carry out. -/
def require (path : Text) (allowed : Bool) : Change Unit := do
  if !allowed then throw (Obstacle.denied.at path)

/-- Opens a file for writing, making it if it is not there; `content` is
what it then holds, given what it held. -/
def openFile (path : Text) (content : Bytes → Bytes) : Change Unit := do
  let d ← get
  let t ← reach path (d.find path)
  if t.slashed then throw (Obstacle.isDirectory.at path)
  match t.node with
  | some (.directory _) => throw (Obstacle.isDirectory.at path)
  | some (.file c m) =>
    require path (d.allows t.place .write)
    modify (·.putNode t.place (.file (content c) m))
  | none =>
    require path (d.allowsEntry t.place)
    modify (·.putNode t.place (.file (content []) fileMode))

/-- Makes bytes the content of a file, in place. -/
def overwrite (path : Text) (content : Bytes) : Change Unit := openFile path fun _ => content

/-- Adds bytes at the end of a file. -/
def append (path : Text) (content : Bytes) : Change Unit := openFile path fun c => c ++ content

/-- Sets the permission bits of what a path leads to. -/
def setMode (path : Text) (mode : Nat) : Change Unit := do
  let d ← get
  let t ← reach path (d.find path)
  let n ← reach path (d.stat path)
  modify (·.putNode t.place (n.withMode mode))

/-- Removes a file. -/
def removeFile (path : Text) : Change Unit := do
  let d ← get
  let t ← reach path (d.find path)
  let n ← reach path (d.stat path)
  require path (d.allowsEntry t.place)
  match n with
  | .directory _ => throw (Obstacle.isDirectory.at path)
  | .file .. => modify (·.removeNode t.place)

/-- Makes a directory where nothing stands. -/
def makeDirectory (path : Text) : Change Unit := do
  let d ← get
  let t ← reach path (d.find path)
  if !t.named || t.node.isSome then throw (Obstacle.taken.at path)
  require path (d.allowsEntry t.place)
  modify (·.putNode t.place (.directory directoryMode))

/-- Gives a file another path, in place of a file that may be there. -/
def rename (path target : Text) : Change Unit := do
  let refuse (o : Obstacle) : FileError :=
    match o.at path with
    | .system n words p _ => .system n words p (some target)
    | e => e
  let d ← get
  match d.find path, d.find target with
  | .error o, _ => throw (refuse o)
  | _, .error o => throw (refuse o)
  | .ok s, .ok t =>
    match s.node with
    | none => throw (refuse .noEntry)
    | some n =>
      if !t.named then throw (refuse .busy)
      if !(d.allowsEntry s.place && d.allowsEntry t.place) then throw (refuse .denied)
      match t.node with
      | some (.directory _) => throw (refuse .isDirectory)
      | _ => if s.place ≠ t.place then modify fun d => (d.removeNode s.place).putNode t.place n

/-! ## §5 Replacing a file as a whole -/

/-- What is added to a file's path while its new content is being written. -/
def temporarySuffix : Text := ".smartpatch_tmp"

/-- A path from the root, by names alone. -/
def absolute (d : Disk) (path : Text) : Text := Path.normalize (Path.join d.workingPath path)

/-- The new content is written beside the file and then takes its place,
with the permission bits the file had. -/
def writeBeside (target temporary : Text) (content : Bytes) : Change Unit := do
  overwrite temporary content
  match (← get).stat target with
  | .ok n => setMode temporary n.mode
  | .error _ => pure ()
  rename temporary target

/-- Makes bytes the content of a file. If this is refused, what was written
beside the file is removed again. -/
def replaceFile (path : Text) (content : Bytes) : Change Unit := do
  let target := (← get).absolute path
  let temporary := target ++ temporarySuffix
  try writeBeside target temporary content
  catch e =>
    try removeFile temporary
    catch _ => pure ()
    throw e

/-! ## §6 Making directories -/

/-- Makes one directory; that it exists already is no reason to refuse. -/
def ensureDirectory (path : Text) : Change Unit := do
  try makeDirectory path
  catch e => if e.kind ≠ .invalidPath ∧ (← get).isDirectory path then pure () else throw e

/-- Makes a directory after those above it. `fuel` bounds how many there
are. -/
def makeDirsFrom : (fuel : Nat) → Text → Change Unit
  | 0, path => ensureDirectory path
  | fuel + 1, path => do
    let (head, tail) := Path.split path
    let (head, tail) := if tail = [] then Path.split head else (head, tail)
    if head ≠ [] ∧ tail ≠ [] ∧ !(← get).has head then
      try makeDirsFrom fuel head
      catch e => if e.kind = .exists then pure () else throw e
      if tail ≠ Path.here then ensureDirectory path
    else ensureDirectory path

/-- Makes a directory and those above it, unless they exist. -/
def makeDirs (path : Text) : Change Unit := makeDirsFrom path.length path

/-- A disk as a file store; the empty path makes no directory. -/
instance : FileStore (StateM Disk) where
  read path := do return (← get).read path
  write path content := (replaceFile path content).run
  has path := do return (← get).has path
  makeDirs path := if path = [] then return .ok () else (Disk.makeDirs path).run

/-- Adds bytes to a file, making its directory first. -/
def appendMaking (path : Text) (content : Bytes) : Change Unit := do
  makeDirs (Path.directory path)
  append path content

end Disk

end Amend
