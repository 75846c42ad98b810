/-
Amend.Proofs.Disks — what operations leave on a disk.

Where a path leads is told by its names and the working directory alone; what
stands on the disk only decides whether it leads there at all (`find_place`).
So a file that is opened is the only one to change (`openFile_confined`), and
making directories changes no file (`makeDirs_confined`). Where either is
refused because no system has a path, that is the path given or a beginning
of it (`InvalidOnly`).

  §1 Places and files.
  §2 Operations that are confined.
  §3 Opening files and making directories.
-/
import Amend.Store.Disk

namespace Amend

/-! ## §1 Places and files -/

namespace Disk

/-- Where names lead from a directory, whatever stands there. -/
def placeFrom : (current : Place) → List Text → Place
  | current, [] => current
  | current, n :: ns =>
    if n = Path.here then placeFrom current ns
    else if n = Path.above then placeFrom current.dropLast ns
    else placeFrom (current ++ [n]) ns

/-- Where a path leads from a working directory. -/
def placeOf (working : Place) (path : Text) : Place :=
  placeFrom (if Path.isAbsolute path then [] else working) ((Path.names path).filter (· ≠ []))

/-- The content and the permission bits of a file. -/
def file? (d : Disk) (place : Place) : Option (Bytes × Nat) :=
  match d.node? place with
  | some (.file content mode) => some (content, mode)
  | _ => none

theorem walk_place {d : Disk} {ns : List Text} {current place : Place} {named : Bool}
    (h : d.walk current ns = .ok (place, named)) : place = placeFrom current ns := by
  induction ns generalizing current with
  | nil =>
    cases h
    rfl
  | cons n ns ih =>
    unfold walk at h
    unfold placeFrom
    split at h
    · cases h
    · split at h
      · rename_i hhere
        rw [if_pos hhere]
        exact ih h
      · rename_i hhere
        rw [if_neg hhere]
        split at h
        · rename_i habove
          rw [if_pos habove]
          exact ih h
        · rename_i habove
          rw [if_neg habove]
          split at h
          · cases h
          · dsimp only at h
            split at h
            · rename_i hlast
              cases h
              rw [hlast]
              rfl
            · split at h
              · cases h
              · cases h
              · exact ih h

theorem walk_ne_invalid (d : Disk) (ns : List Text) (current : Place) (e : FileError) :
    d.walk current ns ≠ .error (.invalid e) := by
  induction ns generalizing current with
  | nil => exact nofun
  | cons n ns ih =>
    unfold walk
    split
    · exact nofun
    · split
      · exact ih _
      · split
        · exact ih _
        · split
          · exact nofun
          · dsimp only
            split
            · exact nofun
            · split
              · exact nofun
              · exact nofun
              · exact ih _

/-- Where a path leads does not depend on what stands on the disk, and what
stands there is what the disk has at that place. -/
theorem find_place {d : Disk} {path : Text} {t : Destination} (h : d.find path = .ok t) :
    t.place = placeOf d.workingDirectory path ∧ t.node = d.node? t.place := by
  unfold find at h
  split at h
  · cases h
  · split at h
    · cases h
    · split at h
      · cases h
      · dsimp only at h
        cases hwalk : d.walk (if Path.isAbsolute path then [] else d.workingDirectory)
            ((Path.names path).filter (· ≠ [])) with
        | error o =>
          rw [hwalk] at h
          cases h
        | ok r =>
          obtain ⟨place, named⟩ := r
          rw [hwalk] at h
          cases h
          exact ⟨walk_place hwalk, rfl⟩

theorem ofPath?_of_find {d : Disk} {path : Text} {e : FileError}
    (h : d.find path = .error (.invalid e)) : FileError.ofPath? path = some e := by
  unfold find at h
  split at h
  · rename_i he
    cases h
    exact he
  · split at h
    · cases h
    · split at h
      · cases h
      · dsimp only at h
        cases hwalk : d.walk (if Path.isAbsolute path then [] else d.workingDirectory)
            ((Path.names path).filter (· ≠ [])) with
        | error o =>
          rw [hwalk] at h
          cases h
          exact absurd hwalk (walk_ne_invalid d _ _ e)
        | ok r =>
          rw [hwalk] at h
          cases h

theorem node?_putNode_of_ne {d : Disk} {place other : Place} (n : Node) (h : other ≠ place) :
    (d.putNode place n).node? other = d.node? other := by
  unfold node? putNode
  rw [Table.get?_put_of_ne _ _ h]

theorem node?_putNode_self {d : Disk} {place : Place} (n : Node) (h : place ≠ []) :
    (d.putNode place n).node? place = some n := by
  unfold node? putNode
  rw [if_neg h, Table.get?_put_self]

/-- The disk has the same files but those of some places, and the same working
directory. -/
structure SameFiles (but : List Place) (d d' : Disk) : Prop where
  working : d'.workingDirectory = d.workingDirectory
  file : ∀ place, place ∉ but → d'.file? place = d.file? place

namespace SameFiles

variable {but : List Place} {d d' d'' : Disk}

theorem refl (but : List Place) (d : Disk) : SameFiles but d d := ⟨rfl, fun _ _ => rfl⟩

theorem trans (h : SameFiles but d d') (h' : SameFiles but d' d'') : SameFiles but d d'' :=
  ⟨h'.working.trans h.working, fun place hplace => (h'.file place hplace).trans (h.file place hplace)⟩

/-- A node put at one of these places changes no other file. -/
theorem putNode {place : Place} (n : Node) (h : place ∈ but) : SameFiles but d (d.putNode place n) where
  working := rfl
  file other hother := by
    have hne : other ≠ place := fun heq => hother (heq ▸ h)
    unfold file?
    rw [node?_putNode_of_ne n hne]

/-- A directory put where nothing stands changes no file. -/
theorem putDirectory {place : Place} (mode : Nat) (h : d.node? place = none) :
    SameFiles but d (d.putNode place (.directory mode)) where
  working := rfl
  file other _ := by
    have hroot : place ≠ [] := by
      rintro rfl
      cases h
    by_cases hne : other = place
    · subst hne
      unfold file?
      rw [node?_putNode_self _ hroot, h]
    · unfold file?
      rw [node?_putNode_of_ne _ hne]

end SameFiles

/-! ## §2 Operations that are confined -/

/-- From this working directory the operation changes no file but those of
some places, and refuses for such reasons only. -/
structure Change.Confined (working : Place) (but : List Place) (why : FileError → Prop) {α : Type}
    (x : Change α) : Prop where
  keeps : ∀ d : Disk, d.workingDirectory = working → SameFiles but d (x.run.run d).2
  refuses : ∀ d : Disk, d.workingDirectory = working → ∀ e, (x.run.run d).1 = .error e → why e

namespace Change

variable {working : Place} {but : List Place} {why why' : FileError → Prop} {α β : Type}

theorem run_bind (x : Change α) (f : α → Change β) (d : Disk) : (x >>= f).run.run d =
    match x.run.run d with
    | (.ok a, d') => (f a).run.run d'
    | (.error e, d') => (.error e, d') := by
  rw [ExceptT.run_bind, StateT.run_bind]
  rcases x.run.run d with ⟨_ | _, _⟩ <;> rfl

theorem run_tryCatch (x : Change α) (f : FileError → Change α) (d : Disk) :
    (tryCatch x f).run.run d =
      match x.run.run d with
      | (.ok a, d') => (.ok a, d')
      | (.error e, d') => (f e).run.run d' := by
  rw [ExceptT.run_tryCatch, StateT.run_bind]
  rcases x.run.run d with ⟨_ | _, _⟩ <;> rfl

theorem run_get (d : Disk) : (get : Change Disk).run.run d = (.ok d, d) := rfl

theorem run_reach_ok (path : Text) (a : α) (d : Disk) :
    (reach path (.ok a)).run.run d = (.ok a, d) := rfl

theorem run_reach_error (path : Text) (o : Obstacle) (d : Disk) :
    (reach path (.error o : Except Obstacle α)).run.run d = (.error (o.at path), d) := rfl

theorem run_require (path : Text) (allowed : Bool) (d : Disk) : (require path allowed).run.run d =
    (if allowed then .ok () else .error (Obstacle.denied.at path), d) := by
  cases allowed <;> rfl

namespace Confined

theorem pure (a : α) : Confined working but why (Pure.pure a : Change α) where
  keeps d _ := .refl but d
  refuses _ _ _ h := nomatch h

theorem throw {e : FileError} (h : why e) :
    Confined working but why (MonadExcept.throw e : Change α) where
  keeps d _ := .refl but d
  refuses _ _ e' he := by
    cases he
    exact h

theorem bind {x : Change α} {f : α → Change β} (hx : Confined working but why x)
    (hf : ∀ a, Confined working but why (f a)) : Confined working but why (x >>= f) := by
  constructor
  · intro d hd
    have hfirst := hx.keeps d hd
    rw [run_bind]
    rcases hresult : x.run.run d with ⟨e | a, d'⟩
    · rwa [hresult] at hfirst
    · rw [hresult] at hfirst
      exact hfirst.trans ((hf a).keeps d' (hfirst.working.trans hd))
  · intro d hd e he
    have hfirst := hx.keeps d hd
    have hwhy := hx.refuses d hd
    rw [run_bind] at he
    rcases hresult : x.run.run d with ⟨e' | a, d'⟩
    · rw [hresult] at he hwhy
      cases he
      exact hwhy _ rfl
    · rw [hresult] at he hfirst
      exact (hf a).refuses d' (hfirst.working.trans hd) e he

theorem tryCatch {x : Change α} {f : FileError → Change α} (hx : Confined working but why' x)
    (hf : ∀ e, why' e → Confined working but why (f e)) :
    Confined working but why (MonadExcept.tryCatch x f) := by
  constructor
  · intro d hd
    have hfirst := hx.keeps d hd
    have hwhy := hx.refuses d hd
    rw [run_tryCatch]
    rcases hresult : x.run.run d with ⟨e | a, d'⟩
    · rw [hresult] at hfirst hwhy
      exact hfirst.trans ((hf e (hwhy e rfl)).keeps d' (hfirst.working.trans hd))
    · rwa [hresult] at hfirst
  · intro d hd e he
    have hfirst := hx.keeps d hd
    have hwhy := hx.refuses d hd
    rw [run_tryCatch] at he
    rcases hresult : x.run.run d with ⟨e' | a, d'⟩
    · rw [hresult] at he hfirst hwhy
      exact (hf e' (hwhy e' rfl)).refuses d' (hfirst.working.trans hd) e he
    · rw [hresult] at he
      cases he

/-- An operation that looks at the disk first. -/
theorem get_bind {f : Disk → Change β}
    (hf : ∀ d : Disk, d.workingDirectory = working → Confined working but why (f d)) :
    Confined working but why (get >>= f) where
  keeps d hd := (hf d hd).keeps d hd
  refuses d hd := (hf d hd).refuses d hd

theorem mono {x : Change α} (hx : Confined working but why' x) (h : ∀ e, why' e → why e) :
    Confined working but why x :=
  ⟨hx.keeps, fun d hd e he => h e (hx.refuses d hd e he)⟩

theorem modify {f : Disk → Disk}
    (h : ∀ d : Disk, d.workingDirectory = working → SameFiles but d (f d)) :
    Confined working but why (modify f : Change Unit) where
  keeps d hd := h d hd
  refuses _ _ _ he := nomatch he

theorem reach_bind {path : Text} {r : Except Obstacle α} {f : α → Change β}
    (hr : ∀ o, r = .error o → why (o.at path))
    (hf : ∀ a, r = .ok a → Confined working but why (f a)) :
    Confined working but why (reach path r >>= f) := by
  cases r with
  | error o =>
    show Confined working but why (MonadExcept.throw (o.at path))
    exact .throw (hr o rfl)
  | ok a => exact hf a rfl

theorem require {path : Text} {allowed : Bool} (h : why (Obstacle.denied.at path)) :
    Confined working but why (Disk.require path allowed) := by
  cases allowed with
  | true => exact .pure ()
  | false => exact .throw h

end Confined

end Change

/-! ## §3 Opening files and making directories -/

/-- That a path is refused because no system has it means that no system has
the path, or a directory on the way to it. -/
def InvalidOnly (path : Text) (e : FileError) : Prop :=
  e.kind = .invalidPath → ∃ part, part <+: path ∧ FileError.ofPath? part = some e

theorem invalidOnly_at {path : Text} {o : Obstacle}
    (h : ∀ e, o = .invalid e → FileError.ofPath? path = some e) : InvalidOnly path (o.at path) := by
  intro hkind
  cases o with
  | invalid e => exact ⟨path, path.prefix_refl, h e rfl⟩
  | _ => cases hkind

theorem run_openFile (path : Text) (content : Bytes → Bytes) (d : Disk) :
    (openFile path content).run.run d =
      match d.find path with
      | .error o => (.error (o.at path), d)
      | .ok t =>
        if t.slashed then (.error (Obstacle.isDirectory.at path), d)
        else
          match t.node with
          | some (.directory _) => (.error (Obstacle.isDirectory.at path), d)
          | some (.file c m) =>
            if d.allows t.place .write then (.ok (), d.putNode t.place (.file (content c) m))
            else (.error (Obstacle.denied.at path), d)
          | none =>
            if d.allowsEntry t.place then (.ok (), d.putNode t.place (.file (content []) fileMode))
            else (.error (Obstacle.denied.at path), d) := by
  simp only [openFile, Change.run_bind, Change.run_get]
  cases d.find path with
  | error o => rfl
  | ok t =>
    simp only [Change.run_reach_ok]
    cases t.slashed with
    | true => rfl
    | false =>
      simp only [Bool.false_eq_true, if_false]
      rcases t.node with _ | ⟨c, m⟩ | m
      · simp only [Change.run_bind, Change.run_require]
        cases d.allowsEntry t.place <;> rfl
      · simp only [Change.run_bind, Change.run_require]
        cases d.allows t.place .write <;> rfl
      · rfl

/-- Opening a file changes no other. -/
theorem openFile_confined {working : Place} {but : List Place} {path : Text}
    (content : Bytes → Bytes) (h : placeOf working path ∈ but) :
    Change.Confined working but (InvalidOnly path) (openFile path content) := by
  unfold openFile
  refine .get_bind fun d hd => .reach_bind (fun o ho => ?_) fun t ht => ?_
  · exact invalidOnly_at fun e he => ofPath?_of_find (he ▸ ho)
  · have hplace : t.place ∈ but := by
      rw [(find_place ht).1, hd]
      exact h
    have hput (n : Node) : Change.Confined working but (InvalidOnly path)
        (modify (·.putNode t.place n)) := .modify fun _ _ => .putNode n hplace
    have hdenied : InvalidOnly path (Obstacle.denied.at path) := invalidOnly_at nofun
    have hdirectory : InvalidOnly path (Obstacle.isDirectory.at path) := invalidOnly_at nofun
    dsimp only
    split
    · show Change.Confined working but (InvalidOnly path) (throw (Obstacle.isDirectory.at path))
      exact .throw hdirectory
    · split
      · exact .throw hdirectory
      · exact .bind (.require hdenied) fun _ => hput _
      · exact .bind (.require hdenied) fun _ => hput _

theorem run_makeDirectory (path : Text) (d : Disk) : (makeDirectory path).run.run d =
    match d.find path with
    | .error o => (.error (o.at path), d)
    | .ok t =>
      if !t.named || t.node.isSome then (.error (Obstacle.taken.at path), d)
      else if d.allowsEntry t.place then (.ok (), d.putNode t.place (.directory directoryMode))
      else (.error (Obstacle.denied.at path), d) := by
  simp only [makeDirectory, Change.run_bind, Change.run_get]
  cases d.find path with
  | error o => rfl
  | ok t =>
    simp only [Change.run_reach_ok]
    split
    · rfl
    · rw [Change.run_bind, Change.run_require]
      cases d.allowsEntry t.place <;> rfl

/-- Making a directory changes no file. -/
theorem makeDirectory_confined {working : Place} {but : List Place} (path : Text) :
    Change.Confined working but (InvalidOnly path) (makeDirectory path) := by
  constructor
  · intro d _
    rw [run_makeDirectory]
    split
    · exact .refl but d
    · rename_i t hfind
      split
      · exact .refl but d
      · rename_i hfree
        split
        · refine .putDirectory directoryMode ?_
          rw [← (find_place hfind).2]
          simp at hfree
          exact hfree.2
        · exact .refl but d
  · intro d _ e he
    rw [run_makeDirectory] at he
    split at he
    · rename_i o hfind
      cases he
      exact invalidOnly_at fun e' he => ofPath?_of_find (he ▸ hfind)
    · split at he
      · cases he
        exact invalidOnly_at nofun
      · split at he
        · cases he
        · cases he
          exact invalidOnly_at nofun

theorem ensureDirectory_confined {working : Place} {but : List Place} (path : Text) :
    Change.Confined working but (InvalidOnly path) (ensureDirectory path) := by
  unfold ensureDirectory
  refine .tryCatch (makeDirectory_confined path) fun e he => ?_
  refine .get_bind fun d _ => ?_
  split
  · exact .pure ()
  · exact .throw he

theorem trimSlashes_prefix_self (path : Text) : Path.trimSlashes path <+: path := by
  have hsuffix : path.reverse.dropWhile (· = Path.slash) <:+ path.reverse := List.dropWhile_suffix _
  rw [Path.trimSlashes, ← List.reverse_suffix, List.reverse_reverse]
  exact hsuffix

theorem directory_prefix_self (path : Text) : Path.directory path <+: path := by
  unfold Path.directory Path.split
  dsimp only
  split
  · exact List.take_prefix ..
  · exact (trimSlashes_prefix_self _).trans (List.take_prefix ..)

theorem InvalidOnly.mono {path path' : Text} {e : FileError} (hpath : path <+: path')
    (h : InvalidOnly path e) : InvalidOnly path' e := by
  intro hkind
  obtain ⟨part, hpart, he⟩ := h hkind
  exact ⟨part, hpart.trans hpath, he⟩

/-- Making a directory and those above it changes no file. -/
theorem makeDirsFrom_confined {working : Place} {but : List Place} (fuel : Nat) (path : Text) :
    Change.Confined working but (InvalidOnly path) (makeDirsFrom fuel path) := by
  induction fuel generalizing path with
  | zero => exact ensureDirectory_confined path
  | succ fuel ih =>
    unfold makeDirsFrom
    dsimp only
    generalize hparts : (if (Path.split path).2 = [] then Path.split (Path.split path).1
      else ((Path.split path).1, (Path.split path).2)) = parts
    have habove : parts.1 <+: path := by
      rw [← hparts]
      split
      · exact (directory_prefix_self _).trans (directory_prefix_self path)
      · exact directory_prefix_self path
    refine .get_bind fun d _ => ?_
    split
    · refine .bind (.tryCatch (ih parts.1) fun e he => ?_) fun _ => ?_
      · split
        · exact .pure ()
        · exact .throw (he.mono habove)
      · split
        · exact ensureDirectory_confined path
        · exact .pure ()
    · exact ensureDirectory_confined path

theorem makeDirs_confined {working : Place} {but : List Place} (path : Text) :
    Change.Confined working but (InvalidOnly path) (makeDirs path) :=
  makeDirsFrom_confined path.length path

/-- Adding to a file, whose directory is made first, changes no other. -/
theorem appendMaking_confined {working : Place} {but : List Place} {path : Text} (content : Bytes)
    (h : placeOf working path ∈ but) :
    Change.Confined working but (InvalidOnly path) (appendMaking path content) := by
  unfold appendMaking
  refine .bind ?_ fun _ => openFile_confined _ h
  exact (makeDirs_confined (Path.directory path)).mono fun e he =>
    he.mono (directory_prefix_self path)

end Disk

end Amend
